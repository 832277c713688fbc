import SearchQuery.Decimal.Text
import SearchQuery.Token.Characters

/-!
# Query trees

A query is a tree of terms, fields, groups and operators.

## All trees

Nothing is excluded by the type. The reader produces a small part of all trees and the passes
others; alternatives, for one, are never typed. A type that excluded some trees would have to be
proved about every pass, so each function on trees is defined on all of them, and what a stage
leaves is stated where it is needed.

## Children

Passes and inspections see a node and its children, in order. `mapChildren` says in one place what
becomes of a node whose children are replaced: a group gives up the children that are lost and is
lost with its last one, and any other node is lost with a child. A function that is passed through
it gets the fact that it is called on a child, by which a recursion through it ends.

## Main definitions

* `Expr` — query trees
* `Kind` — the kind of a node without what it holds
* `Expr.children` — the children of a node, in order
* `Expr.value?` — what a term node holds
* `Expr.mapChildren` — the node with its children passed through a function with state
* `Expr.boosted` — a boost with a normalized score

## Main results

* `Expr.sizeOf_lt_of_mem_children` — a child is smaller than its node
-/

namespace SearchQuery

/-- A query tree. -/
inductive Expr where
  /-- A bare word, its escapes kept. -/
  | word (value : String)
  /-- A quoted phrase without its quotes. -/
  | phrase (value : String)
  /-- A regular expression without its slashes. -/
  | regex (value : String)
  /-- A digital object identifier in lowercase. -/
  | doi (value : String)
  /-- A web address. -/
  | url (value : String)
  /-- A search in one field only. -/
  | field (name : String) (body : Expr)
  /-- Operands side by side. -/
  | group (operands : List Expr)
  /-- Interchangeable alternatives, of which the best one counts. -/
  | synonyms (alternatives : List Expr)
  /-- What lies between two bounds. -/
  | range (left right : Expr) (includeLeft includeRight : Bool)
  /-- A search whose weight is multiplied. -/
  | boost (body : Expr) (score : Decimal)
  /-- A word with a degree of similarity. -/
  | fuzzy (term : Expr) (slop : Decimal)
  /-- A phrase with a distance between its words. -/
  | proximity (term : Expr) (slop : UInt32)
  /-- What has to occur. -/
  | plus (inner : Expr)
  /-- What must not occur. -/
  | minus (inner : Expr)
  deriving Repr, Inhabited

/-- The kind of a node. -/
inductive Kind where
  /-- A bare word. -/
  | word
  /-- A phrase. -/
  | phrase
  /-- A regular expression. -/
  | regex
  /-- A digital object identifier. -/
  | doi
  /-- A web address. -/
  | url
  /-- A search in a field. -/
  | field
  /-- A group. -/
  | group
  /-- A group of alternatives. -/
  | synonyms
  /-- A range. -/
  | range
  /-- A boost. -/
  | boost
  /-- A fuzzy word. -/
  | fuzzy
  /-- A phrase with a distance. -/
  | proximity
  /-- A requirement. -/
  | plus
  /-- An exclusion. -/
  | minus
  deriving DecidableEq, Repr

namespace Expr

/-- The kind of a node. -/
def kind : Expr → Kind
  | word _ => .word
  | phrase _ => .phrase
  | regex _ => .regex
  | doi _ => .doi
  | url _ => .url
  | field _ _ => .field
  | group _ => .group
  | synonyms _ => .synonyms
  | range _ _ _ _ => .range
  | boost _ _ => .boost
  | fuzzy _ _ => .fuzzy
  | proximity _ _ => .proximity
  | plus _ => .plus
  | minus _ => .minus

/-- What a term node holds. -/
def value? : Expr → Option String
  | word v | phrase v | regex v | doi v | url v => some v
  | _ => none

/-- What a term node holds, without the backslashes of literal characters. -/
def unescaped? (e : Expr) : Option String := e.value?.map unescape

/-- The search `body` with its weight multiplied by the normalized score. -/
def boosted (body : Expr) (score : Decimal) : Expr := boost body score.normalize

/-! ### Children -/

/-- The children of a node, in order. -/
def children : Expr → List Expr
  | word _ | phrase _ | regex _ | doi _ | url _ => []
  | field _ body => [body]
  | group operands => operands
  | synonyms alternatives => alternatives
  | range left right _ _ => [left, right]
  | boost body _ => [body]
  | fuzzy term _ => [term]
  | proximity term _ => [term]
  | plus inner => [inner]
  | minus inner => [inner]

/-- A child is smaller than its node. -/
theorem sizeOf_lt_of_mem_children {e c : Expr} (h : c ∈ e.children) : sizeOf c < sizeOf e := by
  cases e with
  | group operands =>
    have : sizeOf c < sizeOf operands := List.sizeOf_lt_of_mem h
    simp only [group.sizeOf_spec]
    omega
  | synonyms alternatives =>
    have : sizeOf c < sizeOf alternatives := List.sizeOf_lt_of_mem h
    simp only [synonyms.sizeOf_spec]
    omega
  | range left right il ir =>
    simp only [children, List.mem_cons, List.not_mem_nil, or_false] at h
    rcases h with rfl | rfl <;> simp only [range.sizeOf_spec] <;> omega
  | word | phrase | regex | doi | url => simp [children] at h
  | _ =>
    simp only [children, List.mem_cons, List.not_mem_nil, or_false] at h
    subst h
    simp +arith

variable {σ : Type}

/-- The answers of `f` for the members of a list, from left to right. Members for which there is
none are left out. -/
def collect {α β : Type} : (xs : List α) → ((x : α) → x ∈ xs → σ → Option β × σ) → σ → List β × σ
  | [], _, s => ([], s)
  | x :: xs, f, s =>
    let (y?, s) := f x (by simp) s
    let (ys, s) := collect xs (fun x h => f x (by simp [h])) s
    (y?.toList ++ ys, s)

/-- The node with every child passed through `f`, from left to right. A group loses the children
for which `f` has no answer, and is lost with its last one. Any other node is lost with a child,
and `f` is not asked about the children after that. -/
def mapChildren : (e : Expr) → ((c : Expr) → c ∈ e.children → σ → Option Expr × σ) → σ →
    Option Expr × σ
  | word v, _, s => (some (word v), s)
  | phrase v, _, s => (some (phrase v), s)
  | regex v, _, s => (some (regex v), s)
  | doi v, _, s => (some (doi v), s)
  | url v, _, s => (some (url v), s)
  | field name body, f, s =>
    let (body?, s) := f body (by simp [children]) s
    (body?.map (field name), s)
  | group operands, f, s =>
    let (operands, s) := collect operands f s
    (if operands.isEmpty then none else some (group operands), s)
  | synonyms alternatives, f, s =>
    let (alternatives, s) := collect alternatives f s
    (if alternatives.isEmpty then none else some (synonyms alternatives), s)
  | range left right il ir, f, s =>
    match f left (by simp [children]) s with
    | (none, s) => (none, s)
    | (some left, s) =>
      let (right?, s) := f right (by simp [children]) s
      (right?.map (range left · il ir), s)
  | boost body score, f, s =>
    let (body?, s) := f body (by simp [children]) s
    (body?.map (boost · score), s)
  | fuzzy term slop, f, s =>
    let (term?, s) := f term (by simp [children]) s
    (term?.map (fuzzy · slop), s)
  | proximity term slop, f, s =>
    let (term?, s) := f term (by simp [children]) s
    (term?.map (proximity · slop), s)
  | plus inner, f, s =>
    let (inner?, s) := f inner (by simp [children]) s
    (inner?.map plus, s)
  | minus inner, f, s =>
    let (inner?, s) := f inner (by simp [children]) s
    (inner?.map minus, s)

end Expr

end SearchQuery
