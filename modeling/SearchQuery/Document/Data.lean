import SearchQuery.Document.Basic
import SearchQuery.Data

/-!
# Documents as structured data

A clause is a table with one entry, whose key names the clause and whose value holds its parts.

The writer puts the parts in one order. The reader takes them in any order and ignores parts that it
does not know, a distance that is absent is the same as one that is nothing, and bounds and the
clauses of a combination may also be arrays of their parts. So one document is written in one way
and read in many.

The reader recurses on the size of the value. A clause that is found under a key is smaller than the
table that it was found in, which `Data.find?` says, so no depth is given.

## Main definitions

* `Document.toData` — the written form
* `Document.ofData?` — the reader
-/

namespace SearchQuery

/-- The name of a part in a combination. -/
def Occur.name : Occur → String
  | must => "must"
  | should => "should"
  | mustNot => "must_not"

/-- The part of this name. -/
def Occur.ofName? (name : String) : Option Occur :=
  [must, should, mustNot].find? (·.name == name)

@[simp] theorem Occur.ofName?_name (o : Occur) : Occur.ofName? o.name = some o := by
  cases o <;> decide

/-- The part that a value names, by itself or as the key of nothing. -/
def Occur.ofData? : Data → Option Occur := Data.named? .json ofName?

/-- The written form of the bounds of a range. -/
def Bounds.toData (b : Bounds) : Data :=
  .table [("left", .string b.left), ("right", .string b.right),
    ("including_left", .bool b.includeLeft), ("including_right", .bool b.includeRight)]

/-- The bounds that a value holds, by name or in order. -/
def Bounds.ofData? : Data → Option Bounds
  | .array [.string left, .string right, .bool includeLeft, .bool includeRight] =>
    some ⟨left, right, includeLeft, includeRight⟩
  | d => do
    let left ← (← d.get? "left").string?
    let right ← (← d.get? "right").string?
    let includeLeft ← (← d.get? "including_left").bool?
    let includeRight ← (← d.get? "including_right").bool?
    return ⟨left, right, includeLeft, includeRight⟩

/-- The distance that a value holds; none if it is absent or nothing. -/
def slopOfData? : Option Data → Option (Option UInt32)
  | none => some none
  | some .null => some none
  | some d => (d.natBelow? UInt32.size).map fun n => some n.toUInt32

namespace Document

mutual

/-- The written form of a clause. -/
def toData : Document → Data
  | all => .table [("all", .table [])]
  | empty => .table [("empty", .table [])]
  | freeText value => .table [("match", .table [("value", .string value)])]
  | term field value =>
    .table [("term", .table [("field", .string field), ("value", .string value)])]
  | phrase field value slop =>
    .table [("phrase", .table (("field", .string field) :: ("value", .string value) ::
      slop.toList.map fun n => ("slop", .integer n.toNat)))]
  | regex field value =>
    .table [("regex", .table [("field", .string field), ("value", .string value)])]
  | range field bounds =>
    .table [("range", .table [("field", .string field), ("value", bounds.toData)])]
  | boolean clauses => .table [("boolean", .table [("subqueries", .array (clausesToData clauses))])]
  | best disjuncts =>
    .table [("disjunction_max", .table [("disjuncts", .array (allToData disjuncts))])]
  | boost query score =>
    .table [("boost", .table [("query", toData query), ("score", .string score)])]

/-- The written forms of clauses. -/
def allToData : List Document → List Data
  | [] => []
  | d :: ds => toData d :: allToData ds

/-- The written forms of clauses with their parts in a combination. -/
def clausesToData : List (Occur × Document) → List Data
  | [] => []
  | (occur, d) :: ds =>
    .table [("occur", .string occur.name), ("query", toData d)] :: clausesToData ds

end

/-- A text under a key. -/
def textAt? (key : String) (entries : List (String × Data)) : Option String :=
  (Data.find? key entries).bind fun v => v.val.string?

mutual

/-- The clause that a value holds. -/
def ofData? : Data → Option Document
  | .table [("all", .table _)] => some all
  | .table [("empty", .table _)] => some empty
  | .table [("match", .table entries)] => (textAt? "value" entries).map freeText
  | .table [("term", .table entries)] => do
    return term (← textAt? "field" entries) (← textAt? "value" entries)
  | .table [("phrase", .table entries)] => do
    return phrase (← textAt? "field" entries) (← textAt? "value" entries)
      (← slopOfData? ((Data.find? "slop" entries).map (·.val)))
  | .table [("regex", .table entries)] => do
    return regex (← textAt? "field" entries) (← textAt? "value" entries)
  | .table [("range", .table entries)] => do
    return range (← textAt? "field" entries)
      (← Bounds.ofData? (← Data.find? "value" entries).val)
  | .table [("boolean", .table entries)] =>
    match Data.find? "subqueries" entries with
    | some ⟨.array xs, _⟩ => (clausesOfData? xs).map boolean
    | _ => none
  | .table [("disjunction_max", .table entries)] =>
    match Data.find? "disjuncts" entries with
    | some ⟨.array xs, _⟩ => (allOfData? xs).map best
    | _ => none
  | .table [("boost", .table entries)] =>
    match Data.find? "query" entries with
    | some ⟨q, _⟩ => do return boost (← ofData? q) (← textAt? "score" entries)
    | none => none
  | _ => none
termination_by d => (sizeOf d, 0)
decreasing_by all_goals (simp_wf; grind)

/-- The clauses that values hold. -/
def allOfData? : List Data → Option (List Document)
  | [] => some []
  | d :: ds => do return (← ofData? d) :: (← allOfData? ds)
termination_by ds => (sizeOf ds, 0)

/-- The clause with its part that a value holds, by name or in order. -/
def clauseOfData? : Data → Option (Occur × Document)
  | .array [occur, query] => do return (← Occur.ofData? occur, ← ofData? query)
  | .table entries =>
    match Data.find? "query" entries with
    | some ⟨q, _⟩ => do
      return (← Occur.ofData? (← Data.find? "occur" entries).val, ← ofData? q)
    | none => none
  | _ => none
termination_by d => (sizeOf d, 1)

/-- The clauses with their parts that values hold. -/
def clausesOfData? : List Data → Option (List (Occur × Document))
  | [] => some []
  | d :: ds => do return (← clauseOfData? d) :: (← clausesOfData? ds)
termination_by ds => (sizeOf ds, 2)

end

end Document

end SearchQuery
