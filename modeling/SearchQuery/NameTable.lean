/-!
# Tables and sets of names

A table holds values under names in ascending order of the names, each name once. A set of names
is a list in ascending order. The order is that of the code points.

## Why lists

Settings are written as they are held, so the order of a table is seen from outside. Two tables that
answer every look-up alike are equal as lists, which is what makes settings that are written and
read again the same.

Both types are plain lists. That a table is sorted is a hypothesis of the results that need it, and
every table that is made by the functions here satisfies it. Setting a value needs no hypothesis: it
affects the value under its name and no other, in any order.

## Main definitions

* `NameTable.put`, `NameTable.update` — the table with a value set, or changed, under a name
* `NameTable.ofList` — the table of a list of entries, where the last entry of a name counts
* `NameSet.add`, `NameSet.ofList` — the set with a name added, the set of a list of names

## Main results

* `NameTable.sorted_ofList` — the names of a table are in ascending order
* `NameTable.get?_update` — what a table holds after a change
* `NameTable.get?_foldl_put` — what a table holds after several names are given one value
* `NameTable.get?_foldl_update` — what a table holds after several changes
* `NameSet.mem_ofList` — the members of a set are those of the list
-/

namespace SearchQuery

/-- Values under names. -/
abbrev NameTable (α : Type) := List (String × α)

/-- A set of names. -/
abbrev NameSet := List String

namespace NameTable

variable {α : Type}

/-- The value under a name. -/
def get? (name : String) (table : NameTable α) : Option α := table.lookup name

/-- The table with the value under `name` replaced by `f` of it. -/
def update (name : String) (f : Option α → α) : NameTable α → NameTable α
  | [] => [(name, f none)]
  | (n, v) :: rest =>
    if name = n then (n, f (some v)) :: rest
    else if name < n then (name, f none) :: (n, v) :: rest
    else (n, v) :: update name f rest

/-- The table with a value under a name. -/
def put (name : String) (value : α) (table : NameTable α) : NameTable α :=
  update name (fun _ => value) table

/-- The table of the entries, where the last entry of a name counts. -/
def ofList (entries : List (String × α)) : NameTable α :=
  entries.foldl (fun table entry => put entry.1 entry.2 table) []

/-- The names of a table. -/
def names (table : NameTable α) : List String := table.map Prod.fst

/-- The names of a table are in ascending order. -/
def Sorted (table : NameTable α) : Prop := table.Pairwise fun a b => a.1 < b.1

/-! ### Changes -/

theorem mem_names_update {a name : String} {f : Option α → α} {table : NameTable α} :
    a ∈ names (update name f table) ↔ a = name ∨ a ∈ names table := by
  induction table with
  | nil => simp [update, names]
  | cons e rest ih =>
    obtain ⟨n, v⟩ := e
    simp only [names] at ih
    rw [update]
    split
    · simp only [names, List.map_cons, List.mem_cons]; grind
    · split
      · simp [names]
      · simp only [names, List.map_cons, List.mem_cons, ih]; grind

/-- A change leaves the names in ascending order. -/
theorem sorted_update {name : String} {f : Option α → α} {table : NameTable α}
    (h : table.Sorted) : Sorted (update name f table) := by
  induction table with
  | nil => simp [update, Sorted]
  | cons e rest ih =>
    obtain ⟨n, v⟩ := e
    obtain ⟨hn, hrest⟩ := List.pairwise_cons.1 h
    rw [update]
    split
    · exact List.pairwise_cons.2 ⟨hn, hrest⟩
    · rename_i hne
      split
      · rename_i hlt
        refine List.pairwise_cons.2 ⟨fun e he => ?_, h⟩
        rcases List.mem_cons.1 he with rfl | he
        · exact hlt
        · exact String.lt_trans hlt (hn e he)
      · rename_i hnlt
        refine List.pairwise_cons.2 ⟨fun e he => ?_, ih hrest⟩
        have : e.1 ∈ names (update name f rest) := List.mem_map_of_mem he
        rcases mem_names_update.1 this with h' | h'
        · rw [h']
          exact String.not_le.1 fun hle => hne (String.le_antisymm hle (String.not_lt.1 hnlt))
        · obtain ⟨e', he', heq⟩ := List.mem_map.1 h'
          rw [← heq]
          exact hn e' he'

@[simp] theorem get?_nil (a : String) : get? a ([] : NameTable α) = none := rfl

theorem get?_cons (a n : String) (v : α) (rest : NameTable α) :
    get? a ((n, v) :: rest) = if a = n then some v else get? a rest := by
  by_cases h : a = n
  · simp [get?, h]
  · have hbeq : (a == n) = false := beq_eq_false_iff_ne.2 h
    simp [get?, List.lookup_cons, h, hbeq]

theorem get?_eq_none {a : String} {table : NameTable α} (h : a ∉ names table) :
    get? a table = none := by
  induction table with
  | nil => rfl
  | cons e rest ih =>
    obtain ⟨n, v⟩ := e
    rw [names, List.map_cons, List.mem_cons, not_or] at h
    rw [get?_cons, if_neg h.1, ih h.2]

/-- In a table with ascending names a look-up finds every entry. -/
theorem mem_iff_get?_eq_some {name : String} {value : α} {table : NameTable α}
    (h : table.Sorted) : (name, value) ∈ table ↔ get? name table = some value := by
  induction table with
  | nil => simp
  | cons e rest ih =>
    obtain ⟨n, v⟩ := e
    obtain ⟨hn, hrest⟩ := List.pairwise_cons.1 h
    rw [List.mem_cons, get?_cons, ih hrest]
    by_cases hname : name = n
    · subst hname
      have hnone : get? name rest = none :=
        get?_eq_none fun hmem =>
          let ⟨e, he, heq⟩ := List.mem_map.1 hmem
          String.lt_irrefl name (heq ▸ hn e he)
      simp [hnone, eq_comm]
    · simp [hname]

/-- A change affects the value under its name and no other. -/
theorem get?_update {a name : String} {f : Option α → α} {table : NameTable α}
    (h : table.Sorted) :
    get? a (update name f table) =
      if a = name then some (f (get? name table)) else get? a table := by
  induction table with
  | nil => simp [update, get?_cons]
  | cons e rest ih =>
    obtain ⟨n, v⟩ := e
    obtain ⟨hn, hrest⟩ := List.pairwise_cons.1 h
    rw [update]
    split
    · rename_i hname
      subst hname
      by_cases ha : a = name <;> simp [get?_cons, ha]
    · rename_i hne
      split
      · rename_i hlt
        have hnone : get? name ((n, v) :: rest) = none := by
          refine get?_eq_none fun hmem => ?_
          rcases List.mem_cons.1 hmem with heq | hmem
          · exact hne heq
          · obtain ⟨e, he, rfl⟩ := List.mem_map.1 hmem
            exact String.lt_asymm hlt (hn e he)
        rw [hnone, get?_cons]
      · rw [get?_cons, get?_cons, get?_cons, ih hrest, if_neg hne]
        by_cases han : a = n
        · rw [if_pos han, if_pos han, if_neg fun ha => hne (ha.symm.trans han)]
        · rw [if_neg han, if_neg han]

/-- Setting the value under a name leaves the other values alone. -/
theorem get?_put {a name : String} {value : α} {table : NameTable α} :
    get? a (put name value table) = if a = name then some value else get? a table := by
  induction table with
  | nil => rw [put, update, get?_cons]
  | cons e rest ih =>
    obtain ⟨n, v⟩ := e
    rw [put, update]
    split
    · rename_i hname
      rw [get?_cons, get?_cons, hname]
      split <;> rfl
    · rename_i hne
      split
      · rw [get?_cons]
      · rw [get?_cons, get?_cons, ← put, ih]
        by_cases han : a = n
        · rw [if_pos han, if_pos han, if_neg fun ha => hne (ha.symm.trans han)]
        · rw [if_neg han, if_neg han]

/-- Several names are given one value, and the other values are left alone. -/
theorem get?_foldl_put {a : String} {names : List String} {value : α} {table : NameTable α} :
    get? a (names.foldl (fun table name => put name value table) table) =
      if a ∈ names then some value else get? a table := by
  induction names generalizing table with
  | nil => simp
  | cons name names ih =>
    rw [List.foldl_cons, ih, get?_put]
    by_cases hmem : a ∈ names <;> by_cases ha : a = name <;> simp [hmem, ha]

/-- The changes of other names leave a value alone, and those of its own name are made one after
the other. -/
theorem get?_foldl_update {β : Type} {a : String} {key : β → String} {f : Option α → β → α}
    {changes : List β} {table : NameTable α} (h : table.Sorted) :
    get? a (changes.foldl (fun table c => table.update (key c) fun value? => f value? c) table) =
      (changes.filter fun c => key c = a).foldl (fun value? c => some (f value? c))
        (get? a table) := by
  induction changes generalizing table with
  | nil => rfl
  | cons c changes ih =>
    rw [List.foldl_cons, ih (sorted_update h), get?_update h]
    by_cases hkey : key c = a
    · subst hkey
      simp
    · simp [hkey, Ne.symm hkey]

theorem sorted_foldl_put (entries : List (String × α)) {table : NameTable α} (h : table.Sorted) :
    Sorted (entries.foldl (fun table entry => put entry.1 entry.2 table) table) := by
  induction entries generalizing table with
  | nil => exact h
  | cons e rest ih => exact ih (sorted_update h)

/-- A table that is made of a list has its names in ascending order. -/
theorem sorted_ofList (entries : List (String × α)) : Sorted (ofList entries) :=
  sorted_foldl_put entries List.Pairwise.nil

end NameTable

namespace NameSet

/-- The set with a name added. -/
def add (name : String) : NameSet → NameSet
  | [] => [name]
  | n :: rest =>
    if name = n then n :: rest
    else if name < n then name :: n :: rest
    else n :: add name rest

/-- The set of the names in a list. -/
def ofList (names : List String) : NameSet := names.foldl (fun set name => add name set) []

@[simp] theorem mem_add {a name : String} {set : NameSet} :
    a ∈ add name set ↔ a = name ∨ a ∈ set := by
  induction set with
  | nil => simp [add]
  | cons n rest ih =>
    rw [add]
    split
    · grind
    · split
      · simp
      · simp [ih]; grind

theorem mem_foldl_add {a : String} (names : List String) (set : NameSet) :
    a ∈ names.foldl (fun set name => add name set) set ↔ a ∈ names ∨ a ∈ set := by
  induction names generalizing set with
  | nil => simp
  | cons n rest ih => simp [ih]; grind

/-- A set has the names of the list and no others. -/
@[simp] theorem mem_ofList {a : String} {names : List String} : a ∈ ofList names ↔ a ∈ names := by
  simp [ofList, mem_foldl_add]

end NameSet

end SearchQuery
