import SearchQuery.Document.Basic
import SearchQuery.Expr.Text

/-!
# Compiling query trees

Outside a field a term becomes a clause of free text, written as a query. In a field it becomes a
clause of that field; the field is handed on to the operands of groups and below signs and boosts.

## Nodes without a clause

Some nodes have no clause in a field: another field, a fuzzy word, a distance that applies to no
phrase, and bounds other than words, phrases, identifiers and addresses. The first of them from the
left is reported with its field, since clauses are made in order and the first failure ends the
compilation.

## Parts

The part of an operand is decided by the operand itself: a sign right there is taken away and
becomes the part, and a sign further down becomes a combination with one clause. A sign that is not
an operand of a group is such a combination too. Operands and alternatives are compiled by different
functions, since alternatives have no parts.

## Main definitions

* `Unsupported` — a node that has no clause in a field
* `Expr.compile` — the document of a tree
* `Expr.compileIn` — the document of a tree in a field
-/

namespace SearchQuery

/-- A node that has no clause in a field. -/
structure Unsupported where
  /-- The text of the node. -/
  expr : String
  /-- The field. -/
  field : String
  deriving DecidableEq, Repr

/-- The message about a node that has no clause in a field. -/
def Unsupported.message (u : Unsupported) : String :=
  "unsupported query: " ++ u.expr ++ " in search field \x60" ++ u.field ++ "\x60"

/-- A combination of clauses. Without clauses everything matches. -/
def Document.ofClauses : List (Occur × Document) → Document
  | [] => .all
  | clauses => .boolean clauses

/-- The best of some clauses. Without clauses everything matches. -/
def Document.ofDisjuncts : List Document → Document
  | [] => .all
  | disjuncts => .best disjuncts

/-- A clause with its weight multiplied by the normalized score. -/
def Document.boosted (query : Document) (score : Decimal) : Document :=
  .boost query score.normalize.text

namespace Expr

/-- The bound of a range in a field: what a word, phrase, identifier or address holds. -/
def boundIn (field : String) : Expr → Except Unsupported String
  | word v | phrase v | doi v | url v => .ok (unescape v)
  | e => .error ⟨e.text, field⟩

mutual

/-- The document of a tree in a field. -/
def compileIn (name : String) : Expr → Except Unsupported Document
  | word v | doi v | url v => .ok (.term name (unescape v))
  | phrase v => .ok (.phrase name (unescape v) none)
  | proximity (phrase v) slop => .ok (.phrase name (unescape v) (some slop))
  | regex v => .ok (.regex name v)
  | range left right includeLeft includeRight => do
    let left ← boundIn name left
    let right ← boundIn name right
    return .range name ⟨left, right, includeLeft, includeRight⟩
  | group operands => do return .ofClauses (← compileOperandsIn name operands)
  | synonyms alternatives => do return .ofDisjuncts (← compileAllIn name alternatives)
  | boost body score => do return (← compileIn name body).boosted score
  | plus inner => do return .boolean [(.must, ← compileIn name inner)]
  | minus inner => do return .boolean [(.mustNot, ← compileIn name inner)]
  | field n body => .error ⟨(field n body).text, name⟩
  | fuzzy term slop => .error ⟨(fuzzy term slop).text, name⟩
  | proximity term slop => .error ⟨(proximity term slop).text, name⟩

/-- The documents of trees in a field. -/
def compileAllIn (name : String) : List Expr → Except Unsupported (List Document)
  | [] => .ok []
  | e :: es => do
    let d ← compileIn name e
    return d :: (← compileAllIn name es)

/-- The clauses of the operands of a group in a field; a sign tells the part of its operand. -/
def compileOperandsIn (name : String) : List Expr → Except Unsupported (List (Occur × Document))
  | [] => .ok []
  | plus inner :: es => do
    let d ← compileIn name inner
    return (.must, d) :: (← compileOperandsIn name es)
  | minus inner :: es => do
    let d ← compileIn name inner
    return (.mustNot, d) :: (← compileOperandsIn name es)
  | e :: es => do
    let d ← compileIn name e
    return (.should, d) :: (← compileOperandsIn name es)

end

mutual

/-- The document of a tree. -/
def compile : Expr → Except Unsupported Document
  | group operands => do return .ofClauses (← compileOperands operands)
  | synonyms alternatives => do return .ofDisjuncts (← compileAll alternatives)
  | field name body => compileIn name body
  | boost body score => do return (← compile body).boosted score
  | plus inner => do return .boolean [(.must, ← compile inner)]
  | minus inner => do return .boolean [(.mustNot, ← compile inner)]
  | leaf => .ok (.freeText leaf.text)

/-- The documents of trees. -/
def compileAll : List Expr → Except Unsupported (List Document)
  | [] => .ok []
  | e :: es => do
    let d ← compile e
    return d :: (← compileAll es)

/-- The clauses of the operands of a group; a sign tells the part of its operand. -/
def compileOperands : List Expr → Except Unsupported (List (Occur × Document))
  | [] => .ok []
  | plus inner :: es => do
    let d ← compile inner
    return (.must, d) :: (← compileOperands es)
  | minus inner :: es => do
    let d ← compile inner
    return (.mustNot, d) :: (← compileOperands es)
  | e :: es => do
    let d ← compile e
    return (.should, d) :: (← compileOperands es)

end

end Expr

end SearchQuery
