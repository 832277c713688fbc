import SearchQuery.Proofs.Toml.Slots
import SearchQuery.Toml.Writer

/-!
# The order of entries in a document

The values of a table are written before the tables in it, and an entry that holds nothing is not
written. So what is read back is the same table in another order, in which every entry that holds
something is found under its key as before.

## Main definitions

* `arrange` — the entries of a table in the order in which they are read back
* `slotsOf` — finished entries as they are held while a document is read

## Main results

* `nodup_arrange` — keys that differ still differ
* `lookup_arrange` — what is found under a key
* `arrange_eq_self` — values alone keep their order
-/

namespace SearchQuery.Toml

/-- Whether a value is a table. -/
def isTable : Data → Bool
  | .table _ => true
  | _ => false

/-- The entries with values that stand on one line. -/
def inlineEntries (entries : List (String × Data)) : List (String × Data) :=
  entries.filter fun entry => isInline entry.2

mutual

/-- A value with its entries, and those of the tables in it, in the order in which they are read
back. -/
def arrangeValue : Data → Data
  | .table entries => .table (inlineEntries entries ++ arrangeTables entries)
  | d => d

/-- The entries with tables, each table arranged. -/
def arrangeTables : List (String × Data) → List (String × Data)
  | [] => []
  | (key, d) :: entries =>
    if isTable d then (key, arrangeValue d) :: arrangeTables entries else arrangeTables entries

end

/-- The entries of a table in the order in which they are read back. -/
def arrange (entries : List (String × Data)) : List (String × Data) :=
  inlineEntries entries ++ arrangeTables entries

variable {key : String} {d : Data} {entries : List (String × Data)}

theorem arrangeValue_table (entries : List (String × Data)) :
    arrangeValue (.table entries) = .table (arrange entries) := by rw [arrangeValue, arrange]

theorem arrangeValue_of_isTable (h : isTable d = false) : arrangeValue d = d := by
  cases d with
  | table entries => cases h
  | _ => rw [arrangeValue]; simp

theorem arrangeTables_cons_of_isTable (h : isTable d = true) :
    arrangeTables ((key, d) :: entries) = (key, arrangeValue d) :: arrangeTables entries := by
  rw [arrangeTables, if_pos h]

theorem arrangeTables_cons_of_not_isTable (h : isTable d = false) :
    arrangeTables ((key, d) :: entries) = arrangeTables entries := by
  rw [arrangeTables, if_neg (Bool.not_eq_true _ ▸ h)]

/-! ### Keys -/

theorem arrangeTables_eq_map (entries : List (String × Data)) :
    arrangeTables entries =
      (entries.filter fun entry => isTable entry.2).map fun entry =>
        (entry.1, arrangeValue entry.2) := by
  induction entries with
  | nil => rw [arrangeTables]; rfl
  | cons entry entries ih =>
    obtain ⟨key, d⟩ := entry
    rw [arrangeTables, ih]
    cases htable : isTable d <;> simp [htable]

theorem isInline_eq_false_of_isTable (h : isTable d = true) : isInline d = false := by
  cases d with
  | table entries => rfl
  | _ => cases h

/-- Keys that differ still differ. -/
theorem nodup_arrange (h : (entries.map Prod.fst).Nodup) :
    ((arrange entries).map Prod.fst).Nodup := by
  have hsub : (entries.filter fun entry => isTable entry.2).Sublist
      (entries.filter fun entry => !isInline entry.2) := by
    have htwice : (entries.filter fun entry => isTable entry.2) =
        (entries.filter fun entry => !isInline entry.2).filter fun entry => isTable entry.2 := by
      rw [List.filter_filter]
      refine List.filter_congr fun entry _ => ?_
      cases htable : isTable entry.2 with
      | false => rfl
      | true => rw [isInline_eq_false_of_isTable htable]; rfl
    rw [htwice]
    exact List.filter_sublist
  have hkeys : (arrange entries).map Prod.fst =
      (inlineEntries entries ++ entries.filter fun entry => isTable entry.2).map Prod.fst := by
    rw [arrange, arrangeTables_eq_map]
    simp
  have hperm : (inlineEntries entries ++ entries.filter fun entry => !isInline entry.2).Perm
      entries := List.filter_append_perm _ _
  rw [hkeys]
  exact (((hsub.append_left _).map Prod.fst).nodup ((hperm.map Prod.fst).nodup_iff.2 h))

/-! ### Values under keys -/

theorem lookup_filter (h : (entries.map Prod.fst).Nodup) (keep : Data → Bool) (key : String) :
    (entries.filter fun entry => keep entry.2).lookup key = (entries.lookup key).filter keep := by
  induction entries with
  | nil => rfl
  | cons entry entries ih =>
    obtain ⟨k, d⟩ := entry
    obtain ⟨hk, hnodup⟩ := List.nodup_cons.1 h
    by_cases hkey : key = k
    · subst hkey
      have hnone : (entries.filter fun entry => keep entry.2).lookup key = none :=
        lookup_eq_none fun hmem => hk ((List.filter_sublist.map Prod.fst).subset hmem)
      cases hkeep : keep d <;> simp [Option.filter, hkeep, hnone]
    · have hne : (key == k) = false := beq_eq_false_iff_ne.2 hkey
      cases hkeep : keep d <;> simp [hkeep, List.lookup_cons, hne, ih hnodup]

theorem lookup_map_snd (f : Data → Data) (entries : List (String × Data)) (key : String) :
    (entries.map fun entry => (entry.1, f entry.2)).lookup key = (entries.lookup key).map f := by
  induction entries with
  | nil => rfl
  | cons entry entries ih =>
    obtain ⟨k, d⟩ := entry
    cases hkey : key == k <;> simp [List.lookup_cons, hkey, ih]

/-- Whether a value is anything but nothing. -/
def isSomething : Data → Bool
  | .null => false
  | _ => true

/-- What is found under a key: what was there, arranged, unless it was nothing. -/
theorem lookup_arrange (h : (entries.map Prod.fst).Nodup) (key : String) :
    (arrange entries).lookup key = ((entries.lookup key).filter isSomething).map arrangeValue := by
  rw [arrange, List.lookup_append, inlineEntries, lookup_filter h isInline, arrangeTables_eq_map,
    lookup_map_snd, lookup_filter h isTable]
  cases entries.lookup key with
  | none => rfl
  | some d =>
    cases d with
    | table entries => rfl
    | null => rfl
    | _ => exact congrArg some (arrangeValue_of_isTable rfl).symm

/-- Values alone keep their order. -/
theorem arrange_eq_self (h : ∀ entry ∈ entries, isInline entry.2 = true) :
    arrange entries = entries := by
  have hinline : inlineEntries entries = entries := List.filter_eq_self.2 h
  have htables : (entries.filter fun entry => isTable entry.2) = [] := by
    rw [List.filter_eq_nil_iff]
    intro entry hentry htable
    have hvalue := h entry hentry
    rw [isInline_eq_false_of_isTable htable] at hvalue
    cases hvalue
  rw [arrange, hinline, arrangeTables_eq_map, htables, List.map_nil, List.append_nil]

/-- A table of values of one form keeps its order. -/
theorem arrangeValue_map {α : Type} {write : α → Data} (h : ∀ v, isInline (write v) = true)
    (table : List (String × α)) :
    arrangeValue (.table (table.map fun entry => (entry.1, write entry.2))) =
      .table (table.map fun entry => (entry.1, write entry.2)) := by
  rw [arrangeValue_table, arrange_eq_self]
  intro entry hentry
  obtain ⟨e, -, rfl⟩ := List.mem_map.1 hentry
  exact h e.2

/-! ### Slots -/

mutual

/-- A finished value as it is held while a document is read, every table opened by its header. -/
def slotOf : Data → Slot
  | .table entries => .table .header (slotsOf entries)
  | d => .value d

/-- Finished entries as they are held while a document is read. -/
def slotsOf : List (String × Data) → Entries
  | [] => []
  | (key, d) :: entries => (key, slotOf d) :: slotsOf entries

end

mutual

theorem finishSlot_slotOf : (d : Data) → finishSlot (slotOf d) = d
  | .table entries => by rw [slotOf, finishSlot, finish_slotsOf entries]
  | .null | .bool _ | .integer _ | .float _ | .string _ | .array _ => by
    rw [slotOf, finishSlot]
    simp

theorem finish_slotsOf : (entries : List (String × Data)) → finish (slotsOf entries) = entries
  | [] => by rw [slotsOf, finish]
  | (key, d) :: entries => by
    rw [slotsOf, finish, finishSlot_slotOf d, finish_slotsOf entries]

end

theorem slotsOf_append (entries more : List (String × Data)) :
    slotsOf (entries ++ more) = slotsOf entries ++ slotsOf more := by
  induction entries with
  | nil => rw [slotsOf]; rfl
  | cons entry entries ih =>
    obtain ⟨key, d⟩ := entry
    rw [List.cons_append, slotsOf, slotsOf, ih, List.cons_append]

theorem map_fst_slotsOf (entries : List (String × Data)) :
    (slotsOf entries).map Prod.fst = entries.map Prod.fst := by
  induction entries with
  | nil => rw [slotsOf]; rfl
  | cons entry entries ih =>
    obtain ⟨key, d⟩ := entry
    rw [slotsOf, List.map_cons, ih, List.map_cons]

/-- The entries of a table have keys that differ while the document is read. -/
theorem nodup_keys_slotsOf (h : (entries.map Prod.fst).Nodup) :
    (keys (slotsOf (inlineEntries entries) ++ slotsOf (arrangeTables entries))).Nodup := by
  rw [← slotsOf_append, keys, map_fst_slotsOf]
  exact nodup_arrange h

theorem slotOf_of_isTable (h : isTable d = false) : slotOf d = .value d := by
  cases d with
  | table entries => cases h
  | _ => rw [slotOf]; simp

end SearchQuery.Toml
