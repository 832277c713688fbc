import SearchQuery.Proofs.Document.Operands
import SearchQuery.Proofs.Tree.Terms

/-!
# Trees that have no document

A field cannot search for everything that a query can say. Compiling hands the field on through
groups, alternatives, boosts and signs, and gives up at the first node that has no clause in a
field. Outside a field every node has a clause.

## The order of the search

Both compilers go through a tree from left to right, a node before what is below it, which is the
order in which a look at the tree finds its nodes (`Expr.visits`). So the nodes that are searched
for are listed first, without a compiler, and the error is about the head of that list.

## Main definitions

* `Expr.inCombination` — the nodes of a tree that stand below combining nodes only
* `Expr.refused` — what of a node has no clause in a field
* `Expr.refusals` — the same for the fields of a tree, with their names

## Main results

* `Expr.failure?_compileIn`, `Expr.failure?_compile` — what each compiler gives up at
* `Expr.compile_eq_error_iff_refusals` — when a tree has no document, and what the error is about
-/

namespace SearchQuery

/-! ### What is searched for in a field -/

/-- The kinds of nodes whose clauses are made of the clauses of their children. -/
def Kind.combines : Kind → Bool
  | .group | .synonyms | .boost | .plus | .minus => true
  | _ => false

/-- The kinds of bounds that a range in a field may have. -/
def Kind.isLiteral : Kind → Bool
  | .word | .phrase | .doi | .url => true
  | _ => false

namespace Expr

variable {e : Expr}

/-- The nodes of a tree that stands below `parents` with nothing but combining nodes around them,
from left to right, a node before what is below it. -/
def inCombinationBelow (parents : List Kind) (e : Expr) : List Expr :=
  ((e.visitsBelow (fun _ => false) parents).filter fun v => v.2.all Kind.combines).map (·.1)

/-- The nodes of a tree with nothing but combining nodes around them. -/
def inCombination (e : Expr) : List Expr := e.inCombinationBelow []

/-- What of a node has no clause in a field: the node itself, or bounds of a range. -/
def refused : Expr → List Expr
  | field name body => [field name body]
  | fuzzy term slop => [fuzzy term slop]
  | proximity term slop => if term.kind = .phrase then [] else [proximity term slop]
  | range left right _ _ => [left, right].filter fun bound => !bound.kind.isLiteral
  | _ => []

/-- What has no clause in a field that is searched for the tree. -/
def refusedIn (e : Expr) : List Expr := e.inCombination.flatMap refused

/-- What has no clause in a field of the tree, with the name of that field. -/
def refusals (e : Expr) : List (String × Expr) :=
  e.inCombination.flatMap fun
    | field name body => body.refusedIn.map (name, ·)
    | _ => []

/-! ### The nodes in a combination -/

theorem inCombinationBelow_eq (parents : List Kind) (e : Expr) :
    e.inCombinationBelow parents = (if parents.all Kind.combines then [e] else []) ++
      e.children.flatMap (inCombinationBelow (parents ++ [e.kind])) := by
  rw [inCombinationBelow, visitsBelow_eq, if_neg (by simp), List.filter_cons, List.filter_flatMap]
  split <;> simp only [List.map_cons, List.map_flatMap] <;> rfl

/-- Nothing below a node that does not combine is found. -/
theorem inCombinationBelow_eq_nil {parents : List Kind} (h : parents.all Kind.combines = false)
    (e : Expr) : e.inCombinationBelow parents = [] := by
  rw [inCombinationBelow_eq, if_neg (by simp [h]), List.nil_append, List.flatMap_eq_nil_iff]
  intro c hc
  have hsize : sizeOf c < sizeOf e := sizeOf_lt_of_mem_children hc
  exact inCombinationBelow_eq_nil (by rw [List.all_append, h, Bool.false_and]) c
termination_by sizeOf e

/-- Which combining nodes stand around a tree makes no difference. -/
theorem inCombinationBelow_eq_inCombination {parents : List Kind}
    (h : parents.all Kind.combines = true) (e : Expr) :
    e.inCombinationBelow parents = e.inCombination := by
  rw [inCombination, inCombinationBelow_eq, inCombinationBelow_eq [], if_pos h,
    if_pos List.all_nil]
  refine congrArg _ (List.flatMap_congr fun c hc => ?_)
  have hsize : sizeOf c < sizeOf e := sizeOf_lt_of_mem_children hc
  by_cases hkind : e.kind.combines = true
  · rw [inCombinationBelow_eq_inCombination (by simp [h, hkind]),
      inCombinationBelow_eq_inCombination (by simp [hkind])]
  · rw [inCombinationBelow_eq_nil (by simp [hkind]), inCombinationBelow_eq_nil (by simp [hkind])]
termination_by sizeOf e

theorem inCombination_of_combines (h : e.kind.combines = true) :
    e.inCombination = e :: e.children.flatMap inCombination := by
  rw [inCombination, inCombinationBelow_eq, if_pos List.all_nil, List.singleton_append]
  refine congrArg _ (List.flatMap_congr fun c _ => ?_)
  exact inCombinationBelow_eq_inCombination (by simp [h]) c

theorem inCombination_of_not_combines (h : e.kind.combines = false) : e.inCombination = [e] := by
  rw [inCombination, inCombinationBelow_eq, if_pos List.all_nil, List.flatMap_eq_nil_iff.2,
    List.append_nil]
  exact fun c _ => inCombinationBelow_eq_nil (by simp [h]) c

/-! ### What is refused -/

theorem refusedIn_of_combines (h : e.kind.combines = true) :
    e.refusedIn = e.children.flatMap refusedIn := by
  have hnone : e.refused = [] := by cases e <;> first | rfl | cases h
  rw [refusedIn, inCombination_of_combines h, List.flatMap_cons, hnone, List.nil_append,
    List.flatMap_assoc]
  rfl

theorem refusedIn_of_not_combines (h : e.kind.combines = false) : e.refusedIn = e.refused := by
  rw [refusedIn, inCombination_of_not_combines h, List.flatMap_singleton]

theorem refusals_of_combines (h : e.kind.combines = true) :
    e.refusals = e.children.flatMap refusals := by
  rw [refusals, inCombination_of_combines h, List.flatMap_cons, List.flatMap_assoc]
  cases e <;> first | rfl | cases h

theorem refusals_field (name : String) (body : Expr) :
    (field name body).refusals = body.refusedIn.map (name, ·) := by
  rw [refusals, inCombination_of_not_combines rfl, List.flatMap_singleton]

theorem refusals_of_leaf (h : e.kind.combines = false) (hfield : e.kind ≠ .field) :
    e.refusals = [] := by
  rw [refusals, inCombination_of_not_combines h, List.flatMap_singleton]
  cases e <;> first | rfl | exact absurd rfl hfield

/-! ### What each compiler gives up at -/

/-- Signed operands are compiled without their signs, which changes nothing of what is refused. -/
theorem failure?_clause {f : Expr → Except Unsupported Document} (e : Expr) :
    failure? (clause f e) = failure? (f e.unsigned) :=
  failure?_bind_pure _ _

theorem refusedIn_unsigned (e : Expr) : e.unsigned.refusedIn = e.refusedIn := by
  cases e with
  | plus inner => rw [refusedIn_of_combines (e := plus inner) rfl]; simp [children, unsigned]
  | minus inner => rw [refusedIn_of_combines (e := minus inner) rfl]; simp [children, unsigned]
  | _ => rfl

theorem refusals_unsigned (e : Expr) : e.unsigned.refusals = e.refusals := by
  cases e with
  | plus inner => rw [refusals_of_combines (e := plus inner) rfl]; simp [children, unsigned]
  | minus inner => rw [refusals_of_combines (e := minus inner) rfl]; simp [children, unsigned]
  | _ => rfl

theorem failure?_boundIn (name : String) (e : Expr) : failure? (boundIn name e) =
    if e.kind.isLiteral then none else some ⟨e.text, name⟩ := by
  cases e <;> rfl

/-- **A field gives up at the first node that it cannot search for.** -/
theorem failure?_compileIn (name : String) (e : Expr) :
    failure? (compileIn name e) = e.refusedIn.head?.map fun d => ⟨d.text, name⟩ := by
  cases e with
  | word | doi | url | phrase | regex | field | fuzzy =>
    rw [refusedIn_of_not_combines rfl, compileIn]
    rfl
  | proximity term slop =>
    rw [refusedIn_of_not_combines rfl, refused]
    cases term <;> rfl
  | range left right il ir =>
    rw [refusedIn_of_not_combines rfl, compileIn,
      failure?_bind fun _ => failure?_bind_pure _ _, failure?_boundIn, failure?_boundIn, refused]
    cases hleft : left.kind.isLiteral <;> cases hright : right.kind.isLiteral <;>
      simp [List.filter, hleft, hright]
  | boost body score | plus body | minus body =>
    rw [refusedIn_of_combines rfl, compileIn, failure?_bind_pure, failure?_compileIn name body,
      children, List.flatMap_singleton]
  | group es =>
    rw [refusedIn_of_combines rfl, compileIn, failure?_bind_pure, compileOperandsIn_eq_mapM]
    refine failure?_mapM fun c hc => ?_
    have hsize : sizeOf c.unsigned < 1 + sizeOf es := Nat.lt_one_add_iff.2
      (Nat.le_trans (sizeOf_unsigned_le c) (Nat.le_of_lt (List.sizeOf_lt_of_mem hc)))
    rw [failure?_clause, failure?_compileIn name c.unsigned, refusedIn_unsigned]
  | synonyms es =>
    rw [refusedIn_of_combines rfl, compileIn, failure?_bind_pure, compileAllIn_eq_mapM]
    refine failure?_mapM fun c hc => ?_
    have hsize : sizeOf c < sizeOf (synonyms es) := sizeOf_lt_of_mem_children hc
    exact failure?_compileIn name c
termination_by sizeOf e

/-- **Compiling gives up at the first node that the field around it cannot search for.** -/
theorem failure?_compile (e : Expr) :
    failure? e.compile = e.refusals.head?.map fun r => ⟨r.2.text, r.1⟩ := by
  cases e with
  | word | phrase | regex | doi | url | range | fuzzy | proximity =>
    rw [refusals_of_leaf rfl Kind.noConfusion, compile]
    all_goals first | rfl | nofun
  | field name body =>
    rw [refusals_field, compile, failure?_compileIn, List.head?_map, Option.map_map]
    rfl
  | boost body score | plus body | minus body =>
    rw [refusals_of_combines rfl, compile, failure?_bind_pure, failure?_compile body,
      children, List.flatMap_singleton]
  | group es =>
    rw [refusals_of_combines rfl, compile, failure?_bind_pure, compileOperands_eq_mapM]
    refine failure?_mapM fun c hc => ?_
    have hsize : sizeOf c.unsigned < 1 + sizeOf es := Nat.lt_one_add_iff.2
      (Nat.le_trans (sizeOf_unsigned_le c) (Nat.le_of_lt (List.sizeOf_lt_of_mem hc)))
    rw [failure?_clause, failure?_compile c.unsigned, refusals_unsigned]
  | synonyms es =>
    rw [refusals_of_combines rfl, compile, failure?_bind_pure, compileAll_eq_mapM]
    refine failure?_mapM fun c hc => ?_
    have hsize : sizeOf c < sizeOf (synonyms es) := sizeOf_lt_of_mem_children hc
    exact failure?_compile c
termination_by sizeOf e

/-! ### When there is no document -/

theorem mem_refusals_iff {name : String} {d : Expr} : (name, d) ∈ e.refusals ↔
    ∃ body, field name body ∈ e.inCombination ∧ ∃ c ∈ body.inCombination, d ∈ c.refused := by
  simp only [refusals, refusedIn, List.mem_flatMap]
  constructor
  · rintro ⟨f, hf, h⟩
    split at h
    · rename_i name' body
      obtain ⟨d', hd, heq⟩ := List.mem_map.1 h
      cases heq
      exact ⟨body, hf, List.mem_flatMap.1 hd⟩
    · cases h
  · rintro ⟨body, hbody, h⟩
    exact ⟨field name body, hbody, List.mem_map_of_mem (List.mem_flatMap.2 h)⟩

/-- **When a tree has no document.** There is none exactly when some field that only combining nodes
stand around cannot search for something that only combining nodes of it stand around. The error
is about the first such thing, from left to right, and about the field that it is searched in. -/
theorem compile_eq_error_iff_refusals (e : Expr) :
    ((∃ err, e.compile = .error err) ↔ ∃ name body, field name body ∈ e.inCombination ∧
      ∃ c ∈ body.inCombination, ∃ d, d ∈ c.refused) ∧
    ∀ err, e.compile = .error err ↔
      ∃ name d, e.refusals.head? = some (name, d) ∧ err = ⟨d.text, name⟩ := by
  have herror : ∀ err, e.compile = .error err ↔
      ∃ name d, e.refusals.head? = some (name, d) ∧ err = ⟨d.text, name⟩ := fun err => by
    rw [← failure?_eq_some_iff, failure?_compile, Option.map_eq_some_iff]
    exact ⟨fun ⟨(name, d), h, herr⟩ => ⟨name, d, h, herr.symm⟩,
      fun ⟨name, d, h, herr⟩ => ⟨(name, d), h, herr.symm⟩⟩
  refine ⟨⟨fun ⟨err, h⟩ => ?_, fun ⟨name, body, hbody, c, hc, d, hd⟩ => ?_⟩, herror⟩
  · obtain ⟨name, d, hhead, -⟩ := (herror err).1 h
    obtain ⟨body, hbody, c, hc, hd⟩ := mem_refusals_iff.1 (List.mem_of_mem_head? hhead)
    exact ⟨name, body, hbody, c, hc, d, hd⟩
  · have hmem : (name, d) ∈ e.refusals := mem_refusals_iff.2 ⟨body, hbody, c, hc, hd⟩
    have hhead := List.head?_eq_some_head (List.ne_nil_of_mem hmem)
    exact ⟨_, (herror _).2 ⟨_, _, hhead, rfl⟩⟩

example : (group [word "a", field "title" (group [plus (word "b"),
    range (word "c") (regex "d") true true, field "year" (word "e")])]).compile =
      .error ⟨"/d/", "title"⟩ := by rfl

end Expr

end SearchQuery
