import SearchQuery.Data

/-!
# Tables under construction

A settings file builds its tables piece by piece. What stands under a key while it is read also
tells how it came about, since a table may be given a header only once. A key with dots passes
through no table that has a header, other than the elements of an array of tables, and the table it
leads to is one that keys with dots made.

## One way down

All changes go down a path and change what is at its end, and they differ in what they make of
tables that are missing on the way and in the change itself. `Toml.descend?` is the way down. Going
through an array of tables leads into its last element, so that what follows the header of an
element belongs to that element; the elements are held last one first for this.

New keys go to the end, so a finished table has its entries in the order of the document.

## Main definitions

* `Toml.Slot` — what stands under a key
* `Toml.descend?` — the entries with a change at the end of a path
* `Toml.insert?` — the entries with a value under a key with dots
* `Toml.open?`, `Toml.append?` — the entries with a table opened by a header
* `Toml.modify?` — the entries with a change to the table that a header opened
* `Toml.finish` — the finished entries
-/

namespace SearchQuery.Toml

/-- How a table came about. -/
inductive Origin where
  /-- By the header of a table in it. -/
  | implied
  /-- By its own header. -/
  | header
  /-- By a key with dots. -/
  | dotted
  deriving DecidableEq, Repr

/-- What stands under a key. -/
inductive Slot where
  /-- A finished value. -/
  | value (d : Data)
  /-- A table. -/
  | table (origin : Origin) (entries : List (String × Slot))
  /-- An array of tables, the last one first. -/
  | tables (elements : List (List (String × Slot)))

/-- What stands under the keys of a table. -/
abbrev Entries := List (String × Slot)

/-- The entries with another slot under a key that has one. -/
def replaceSlot (key : String) (slot : Slot) (entries : Entries) : Entries :=
  entries.map fun entry => if entry.1 = key then (key, slot) else entry

/-- The entries with a change to the table at the end of a path. The change may depend on how that
table came about. Tables that are missing on the way are made. -/
def descend? (made : Origin) (change? : Origin → Entries → Option Entries) :
    List String → Origin → Entries → Option Entries
  | [], origin, entries => change? origin entries
  | key :: path, _, entries =>
    match entries.lookup key with
    | none =>
      (descend? made change? path made []).map fun es => entries ++ [(key, .table made es)]
    | some (.table origin es) =>
      if made = .dotted && origin = .header then none
      else
        (descend? made change? path origin es).map fun es =>
          replaceSlot key (.table origin es) entries
    | some (.tables (last :: rest)) =>
      (descend? made change? path .header last).map fun es =>
        replaceSlot key (.tables (es :: rest)) entries
    | some _ => none

/-- The entries with a slot under a new key. -/
def addSlot? (key : String) (slot : Slot) (entries : Entries) : Option Entries :=
  if (entries.lookup key).isSome then none else some (entries ++ [(key, slot)])

/-- The entries with a value under a key with dots, or under a key by itself. -/
def insert? (path : List String) (key : String) (d : Data) : Entries → Option Entries :=
  descend? .dotted
    (fun origin entries =>
      if path.isEmpty || origin = .dotted then addSlot? key (.value d) entries else none)
    path .header

/-- The entries with a table under a key, opened by its header. -/
def openTable? (key : String) (entries : Entries) : Option Entries :=
  match entries.lookup key with
  | none => some (entries ++ [(key, .table .header [])])
  | some (.table .implied es) => some (replaceSlot key (.table .header es) entries)
  | some _ => none

/-- The entries with one more element in the array of tables under a key. -/
def appendTable? (key : String) (entries : Entries) : Option Entries :=
  match entries.lookup key with
  | none => some (entries ++ [(key, .tables [[]])])
  | some (.tables elements) => some (replaceSlot key (.tables ([] :: elements)) entries)
  | some _ => none

/-- The entries with a table opened by a header. -/
def open? (path : List String) (key : String) : Entries → Option Entries :=
  descend? .implied (fun _ => openTable? key) path .header

/-- The entries with an element of an array of tables opened by a header. -/
def append? (path : List String) (key : String) : Entries → Option Entries :=
  descend? .implied (fun _ => appendTable? key) path .header

/-- The entries with a change to the table that a header opened. -/
def modify? (path : List String) (change? : Entries → Option Entries) :
    Entries → Option Entries :=
  descend? .implied (fun _ => change?) path .header

mutual

/-- The finished value of a slot. -/
def finishSlot : Slot → Data
  | .value d => d
  | .table _ entries => .table (finish entries)
  | .tables elements => .array (finishAll elements).reverse

/-- The finished entries. -/
def finish : List (String × Slot) → List (String × Data)
  | [] => []
  | (key, slot) :: entries => (key, finishSlot slot) :: finish entries

/-- The finished elements of an array of tables. -/
def finishAll : List (List (String × Slot)) → List Data
  | [] => []
  | entries :: elements => .table (finish entries) :: finishAll elements

end

end SearchQuery.Toml
