import SearchQuery.Number.Floating

/-!
# Structured data

The values that documents and settings are made of when they are exchanged as JSON or TOML.

## Tables are lists

A table keeps the order of its entries, since what is written comes out in that order. What is read
may come in any order: a key is looked up, and the first entry that has it counts. That keys are
distinct is a matter of the readers and is not part of the type.

`Data.find?` answers with the fact that the value is smaller than the table. A reader of nested
values can therefore call itself on what it finds, with the size of its input as the measure.

## Nothing

JSON has a word for nothing and TOML has none. Where a name may be written as the key of nothing, an
empty array or table takes that place in TOML.

## Main definitions

* `Data` — structured values
* `DataFormat` — the formats in which they are exchanged
* `Data.get?` — the value of a key
* `Data.arrayOf?`, `Data.tableOf?`, `Data.named?` — values of a given form, read
-/

namespace SearchQuery

/-- A structured value. -/
inductive Data where
  /-- Nothing. -/
  | null
  /-- A truth value. -/
  | bool (b : Bool)
  /-- A whole number. -/
  | integer (n : Int)
  /-- A floating-point number. -/
  | float (x : Number.Floating)
  /-- A text. -/
  | string (s : String)
  /-- A list of values. -/
  | array (xs : List Data)
  /-- Values under keys. -/
  | table (entries : List (String × Data))
  deriving Repr, Inhabited

/-- The formats in which structured values are exchanged. -/
inductive DataFormat where
  /-- JSON, which has a word for nothing. -/
  | json
  /-- TOML, in which an empty array or table stands for nothing. -/
  | toml
  deriving DecidableEq, Repr

namespace Data

/-- The value under a key. -/
def find? (key : String) : (entries : List (String × Data)) →
    Option { v : Data // sizeOf v < sizeOf entries }
  | [] => none
  | (k, v) :: entries =>
    if k = key then some ⟨v, by simp +arith⟩
    else (find? key entries).map fun ⟨v, h⟩ => ⟨v, by simp; omega⟩

/-- The value under a key of a table. -/
def get? (key : String) : (d : Data) → Option Data
  | table entries => (find? key entries).map (·.val)
  | _ => none

/-- The text that a value is. -/
def string? : Data → Option String
  | string s => some s
  | _ => none

/-- The truth value that a value is. -/
def bool? : Data → Option Bool
  | bool b => some b
  | _ => none

/-- The number from 0 to below `bound` that a value is. -/
def natBelow? (bound : Nat) : Data → Option Nat
  | integer n => if 0 ≤ n && n < bound then some n.toNat else none
  | _ => none

/-- The array that a value is. -/
def array? : Data → Option (List Data)
  | array xs => some xs
  | _ => none

/-- The array that a value is, each element read. -/
def arrayOf? {α : Type} (read? : Data → Option α) : Data → Option (List α)
  | array xs => xs.mapM read?
  | _ => none

/-- The table that a value is, the value of each key read. -/
def tableOf? {α : Type} (read? : Data → Option α) : Data → Option (List (String × α))
  | table entries => entries.mapM fun entry => (read? entry.2).map fun v => (entry.1, v)
  | _ => none

/-- Whether a value stands for nothing in a format. -/
def isNothing : DataFormat → Data → Bool
  | .json, null => true
  | .toml, array [] => true
  | .toml, table [] => true
  | _, _ => false

/-- What the name that a value is stands for. The name may also be the key of nothing. -/
def named? {α : Type} (format : DataFormat) (ofName? : String → Option α) : Data → Option α
  | string name => ofName? name
  | table [(name, d)] => if d.isNothing format then ofName? name else none
  | _ => none

end Data

end SearchQuery
