import SearchQuery.Toml.Slots

/-!
# Tables that are read piece by piece

The lines after a header change the table that the header opened, and the lines after the next
header change another one. Seen from a table further up, all of this is one change: changes made at
one path one after the other are a single change at that path, and a change at a longer path is a
change at any shorter one.

## Main definitions

* `addAll?` — the entries with new slots under new keys

## Main results

* `descend?_bind` — two changes at one path are one
* `modify?_append` — a change at a path is a change further up
* `addTable?_eq` — a header and the lines after it add one slot
-/

namespace SearchQuery.Toml

variable {key : String} {slot : Slot} {entries : Entries}

/-! ### Slots under keys -/

theorem lookup_eq_none {α : Type} {entries : List (String × α)} (h : key ∉ entries.map Prod.fst) :
    entries.lookup key = none := by
  rw [List.lookup_eq_none_iff]
  intro entry hentry
  rw [bne_iff_ne]
  rintro rfl
  exact h (List.mem_map_of_mem hentry)

theorem lookup_replaceSlot (h : (entries.lookup key).isSome) :
    (replaceSlot key slot entries).lookup key = some slot := by
  induction entries with
  | nil => cases h
  | cons entry entries ih =>
    obtain ⟨k, s⟩ := entry
    by_cases hk : k = key
    · simp [replaceSlot, hk]
    · have hne : (key == k) = false := beq_eq_false_iff_ne.2 (Ne.symm hk)
      simp only [List.lookup_cons, hne] at h
      simpa [replaceSlot, hk, List.lookup_cons, hne] using ih h

theorem replaceSlot_replaceSlot (slot' : Slot) :
    replaceSlot key slot' (replaceSlot key slot entries) = replaceSlot key slot' entries := by
  simp only [replaceSlot, List.map_map]
  refine List.map_congr_left fun entry _ => ?_
  by_cases hk : entry.1 = key <;> simp [hk]

theorem lookup_append_new (h : entries.lookup key = none) (slot : Slot) :
    (entries ++ [(key, slot)]).lookup key = some slot := by
  simp [List.lookup_append, h]

theorem replaceSlot_append_new (h : entries.lookup key = none) (slot' : Slot) :
    replaceSlot key slot' (entries ++ [(key, slot)]) = entries ++ [(key, slot')] := by
  have hkept : replaceSlot key slot' entries = entries := by
    rw [replaceSlot]
    refine (List.map_congr_left fun entry hentry => ?_).trans (List.map_id entries)
    rw [List.lookup_eq_none_iff] at h
    have hne := h entry hentry
    rw [if_neg fun heq => by simp [heq] at hne]
    rfl
  rw [replaceSlot] at hkept ⊢
  rw [List.map_append, hkept]
  simp

/-! ### Changes at a path -/

variable {made origin : Origin} {path : List String}

/-- Two changes at one path are one. -/
theorem descend?_bind (first second : Origin → Entries → Option Entries) :
    descend? made (fun origin entries => (first origin entries).bind (second origin)) path origin
      entries =
      (descend? made first path origin entries).bind (descend? made second path origin) := by
  induction path generalizing origin entries with
  | nil => rfl
  | cons key path ih =>
    rw [descend?, descend?]
    cases hlookup : entries.lookup key with
    | none =>
      dsimp only
      rw [ih]
      cases descend? made first path made [] with
      | none => rfl
      | some es =>
        dsimp only [Option.bind_some, Option.map_some]
        rw [descend?, lookup_append_new hlookup]
        dsimp only
        rw [if_neg (by cases made <;> decide)]
        exact congrArg (Option.map · _) (funext fun es' => (replaceSlot_append_new hlookup _).symm)
    | some slot =>
      have hreplaced (slot' : Slot) : (replaceSlot key slot' entries).lookup key = some slot' :=
        lookup_replaceSlot (by rw [hlookup, Option.isSome_some])
      cases slot with
      | value d => rfl
      | table origin es =>
        dsimp only
        by_cases hpassed : (made = .dotted && origin = .header) = true
        · rw [if_pos hpassed, if_pos hpassed]
          rfl
        rw [if_neg hpassed, if_neg hpassed, ih]
        cases descend? made first path origin es with
        | none => rfl
        | some es =>
          dsimp only [Option.bind_some, Option.map_some]
          rw [descend?, hreplaced]
          dsimp only
          rw [if_neg hpassed]
          simp only [replaceSlot_replaceSlot]
      | tables elements =>
        cases elements with
        | nil => rfl
        | cons last elements =>
          dsimp only
          rw [ih]
          cases descend? made first path .header last with
          | none => rfl
          | some es =>
            dsimp only [Option.bind_some, Option.map_some]
            rw [descend?, hreplaced]
            simp only [replaceSlot_replaceSlot]

/-- A change at a path is a change at any front part of it. -/
theorem descend?_append {change? : Origin → Entries → Option Entries} (front path : List String) :
    descend? made change? (front ++ path) origin entries =
      descend? made (descend? made change? path) front origin entries := by
  induction front generalizing origin entries with
  | nil => rfl
  | cons key front ih => simp only [List.cons_append, descend?, ih]

/-- A change that may be more than another one does as much. -/
theorem descend?_mono {first second : Origin → Entries → Option Entries} {entries' : Entries}
    (hle : ∀ {origin es es'}, first origin es = some es' → second origin es = some es')
    (h : descend? made first path origin entries = some entries') :
    descend? made second path origin entries = some entries' := by
  induction path generalizing origin entries entries' with
  | nil => exact hle h
  | cons key path ih =>
    rw [descend?] at h ⊢
    cases hlookup : entries.lookup key with
    | none =>
      simp only [hlookup, Option.map_eq_some_iff] at h ⊢
      obtain ⟨es, hes, h⟩ := h
      exact ⟨es, ih hes, h⟩
    | some slot =>
      cases slot with
      | value d => simp [hlookup] at h
      | table origin es =>
        simp only [hlookup, Option.ite_none_left_eq_some, Option.map_eq_some_iff] at h ⊢
        obtain ⟨hpassed, es, hes, h⟩ := h
        exact ⟨hpassed, es, ih hes, h⟩
      | tables elements =>
        cases elements with
        | nil => simp [hlookup] at h
        | cons last elements =>
          simp only [hlookup, Option.map_eq_some_iff] at h ⊢
          obtain ⟨es, hes, h⟩ := h
          exact ⟨es, ih hes, h⟩

theorem exists_of_modify?_bind {first second : Entries → Option Entries} {entries' : Entries}
    (h : modify? path (fun es => (first es).bind second) entries = some entries') :
    ∃ middle, modify? path first entries = some middle ∧
      modify? path second middle = some entries' := by
  have hbind : modify? path (fun es => (first es).bind second) entries =
      (modify? path first entries).bind (modify? path second) :=
    descend?_bind (fun _ => first) fun _ => second
  exact Option.bind_eq_some_iff.1 (hbind.symm.trans h)

/-- After a change at a path there is a table at the path. -/
theorem modify?_self {change? : Entries → Option Entries} {entries' : Entries}
    (h : modify? path change? entries = some entries') :
    modify? path some entries' = some entries' := by
  have hbind : modify? path (fun es => (change? es).bind some) entries = some entries' := by
    simpa using h
  obtain ⟨middle, hmiddle, hself⟩ := exists_of_modify?_bind hbind
  cases h.symm.trans hmiddle
  exact hself

/-- The change that adds slots under new keys. -/
def addAll? : Entries → Entries → Option Entries
  | [], entries => some entries
  | (key, slot) :: slots, entries => (addSlot? key slot entries).bind (addAll? slots)

/-- The keys of entries. -/
def keys (entries : Entries) : List String := entries.map Prod.fst

theorem addSlot?_eq (h : key ∉ keys entries) (slot : Slot) :
    addSlot? key slot entries = some (entries ++ [(key, slot)]) := by
  rw [addSlot?, lookup_eq_none h]
  rfl

theorem addAll?_eq {slots : Entries} (h : (keys (entries ++ slots)).Nodup) :
    addAll? slots entries = some (entries ++ slots) := by
  induction slots generalizing entries with
  | nil => rw [List.append_nil]; rfl
  | cons entry slots ih =>
    obtain ⟨key, slot⟩ := entry
    rw [List.append_cons] at h
    have hkey : key ∉ keys entries := by
      rw [keys, List.map_append, List.map_append, List.append_assoc] at h
      exact fun hmem => (List.nodup_append.1 h).2.2 key hmem key (by simp) rfl
    rw [addAll?, addSlot?_eq hkey, Option.bind_some, ih h, ← List.append_cons]

theorem addAll?_singleton (key : String) (slot : Slot) :
    addAll? [(key, slot)] = addSlot? key slot :=
  funext fun _ => Option.bind_fun_some _

theorem addAll?_append (slots more : Entries) :
    addAll? (slots ++ more) entries = (addAll? slots entries).bind (addAll? more) := by
  induction slots generalizing entries with
  | nil => rfl
  | cons entry slots ih =>
    obtain ⟨key, slot⟩ := entry
    rw [List.cons_append, addAll?, addAll?, Option.bind_assoc]
    exact congrArg _ (funext fun es => ih)

/-! ### Tables with headers -/

/-- The change of a header and of what follows it. -/
def openWith? (key : String) (slots : Entries) (entries : Entries) : Option Entries :=
  (openTable? key entries).bind (modify? [key] (addAll? slots))

theorem openWith?_of_addSlot? {slots entries' : Entries} (h : (keys slots).Nodup)
    (hadd : addSlot? key (.table .header slots) entries = some entries') :
    openWith? key slots entries = some entries' := by
  rw [addSlot?, Option.ite_none_left_eq_some] at hadd
  obtain ⟨hnone, hadd⟩ := hadd
  cases hadd
  have hlookup : entries.lookup key = none := by
    rwa [Bool.not_eq_true, Option.isSome_eq_false_iff, Option.isNone_iff_eq_none] at hnone
  have hall : addAll? slots [] = some slots := addAll?_eq h
  have hopen : openTable? key entries = some (entries ++ [(key, .table .header [])]) := by
    rw [openTable?, hlookup]
  rw [openWith?, hopen, Option.bind_some, modify?, descend?, lookup_append_new hlookup]
  dsimp only [descend?]
  rw [hall, if_neg (by decide), Option.map_some, replaceSlot_append_new hlookup]

theorem modify?_of_openTable? {opened : Entries} (h : openTable? key entries = some opened) :
    modify? [key] some opened = some opened := by
  rw [openTable?] at h
  split at h
  · rename_i hlookup
    cases h
    rw [modify?, descend?, lookup_append_new hlookup]
    dsimp only [descend?]
    rw [if_neg (by decide), Option.map_some, replaceSlot_append_new hlookup]
  · rename_i hlookup
    cases h
    rw [modify?, descend?, lookup_replaceSlot (by rw [hlookup, Option.isSome_some])]
    dsimp only [descend?]
    rw [if_neg (by decide), Option.map_some, replaceSlot_replaceSlot]
  · cases h

/-- **A header and the lines after it add one slot**: the header opens a table, and what follows
fills it, the values first and then the tables in it. -/
theorem exists_open?_of_modify? {values tables entries' : Entries}
    (h : (keys (values ++ tables)).Nodup)
    (hadd : modify? path (addSlot? key (.table .header (values ++ tables))) entries =
      some entries') :
    ∃ opened filled, open? path key entries = some opened ∧
      modify? (path ++ [key]) some opened = some opened ∧
      modify? (path ++ [key]) (addAll? values) opened = some filled ∧
      modify? (path ++ [key]) (addAll? tables) filled = some entries' := by
  have hopenWith : modify? path (openWith? key (values ++ tables)) entries = some entries' :=
    descend?_mono (fun h' => openWith?_of_addSlot? h h') hadd
  obtain ⟨opened, hopened, hfill⟩ := exists_of_modify?_bind hopenWith
  have hself : modify? path (modify? [key] some) opened = some opened := by
    have hbind : modify? path (fun es => (openTable? key es).bind (modify? [key] some)) entries =
        some opened := by
      refine descend?_mono (fun {_ es es'} h' => ?_) hopened
      rw [h', Option.bind_some, modify?_of_openTable? h']
    obtain ⟨opened', hopened', hself⟩ := exists_of_modify?_bind hbind
    cases hopened.symm.trans hopened'
    exact hself
  have hall : modify? (path ++ [key]) (fun es => (addAll? values es).bind (addAll? tables)) opened =
      some entries' := by
    rw [modify?, descend?_append]
    simp only [← addAll?_append]
    exact hfill
  obtain ⟨filled, hfilled, htables⟩ := exists_of_modify?_bind hall
  refine ⟨opened, filled, hopened, ?_, hfilled, htables⟩
  rw [modify?, descend?_append]
  exact hself

end SearchQuery.Toml
