import Mathlib.Data.List.DropRight
import SearchQuery.Proofs.Decimal.Text
import SearchQuery.Proofs.Except
import SearchQuery.Proofs.Text.Lowercase
import SearchQuery.Proofs.Text.Words
import SearchQuery.Settings.Load

/-!
# Settings in normal form

Settings are lowercased, sorted, trimmed and rid of repetitions when they are loaded. All of this
changes nothing the second time: a set in ascending order is the set of its own names, a synonym set
without repetitions is kept as it is, and a score without zeros at its end is read back from its
text.

## Main definitions

* `NameSet.Sorted` — the names of a set are in ascending order
* `Decimal.IsScore` — a decimal number that can be a score
* `SynonymSets.IsNormal` — adding the sets again gives the same sets

## Main results

* `NameSet.ofList_eq_self`, `NameTable.ofList_eq_self` — sets and tables of their own entries
* `SynonymSets.isNormal_of_ofLists?` — synonym sets that were added one by one
* `Decimal.score?_text` — a score is read back from its text
-/

namespace SearchQuery

/-! ### Sets and tables of names -/

namespace NameSet

variable {name : String} {set : NameSet}

/-- The names of a set are in ascending order. -/
def Sorted (set : NameSet) : Prop := set.Pairwise (· < ·)

theorem sorted_add (h : set.Sorted) : Sorted (add name set) := by
  induction set with
  | nil => exact List.pairwise_singleton _ _
  | cons n rest ih =>
    obtain ⟨hn, hrest⟩ := List.pairwise_cons.1 h
    rw [add]
    split
    · exact h
    · rename_i hne
      split
      · rename_i hlt
        refine List.pairwise_cons.2 ⟨fun m hm => ?_, h⟩
        rcases List.mem_cons.1 hm with rfl | hm
        · exact hlt
        · exact String.lt_trans hlt (hn m hm)
      · rename_i hnlt
        refine List.pairwise_cons.2 ⟨fun m hm => ?_, ih hrest⟩
        rcases mem_add.1 hm with rfl | hm
        · exact String.not_le.1 fun hle => hne (String.le_antisymm hle (String.not_lt.1 hnlt))
        · exact hn m hm

theorem sorted_foldl_add (h : set.Sorted) (names : List String) :
    Sorted (names.foldl (fun set name => add name set) set) := by
  induction names generalizing set with
  | nil => exact h
  | cons name names ih => exact ih (sorted_add h)

theorem sorted_ofList (names : List String) : Sorted (ofList names) :=
  sorted_foldl_add List.Pairwise.nil names

/-- A name after all names of a set is added at the end. -/
theorem add_eq_append (h : ∀ n ∈ set, n < name) : add name set = set ++ [name] := by
  induction set with
  | nil => rfl
  | cons n rest ih =>
    rw [List.forall_mem_cons] at h
    have hne : name ≠ n := fun heq => String.lt_irrefl n (heq ▸ h.1)
    rw [add, if_neg hne, if_neg (String.lt_asymm h.1), ih h.2, List.cons_append]

/-- Names that go on in ascending order are added one after the other. -/
theorem foldl_add_eq_append {before after : NameSet} (h : Sorted (before ++ after)) :
    after.foldl (fun set name => add name set) before = before ++ after := by
  induction after generalizing before with
  | nil => exact (List.append_nil before).symm
  | cons name after ih =>
    have hlast : ∀ n ∈ before, n < name := fun n hn =>
      (List.pairwise_append.1 h).2.2 n hn name (List.mem_cons_self ..)
    rw [List.foldl_cons, add_eq_append hlast, ih (by rwa [List.append_assoc])]
    rw [List.append_assoc, List.singleton_append]

/-- **A set in ascending order is the set of its own names.** -/
theorem ofList_eq_self (h : set.Sorted) : ofList set = set := foldl_add_eq_append h

end NameSet

namespace NameTable

variable {α : Type} {name : String} {table : NameTable α}

/-- A name after all names of a table is added at the end. -/
theorem put_eq_append (value : α) (h : ∀ entry ∈ table, entry.1 < name) :
    put name value table = table ++ [(name, value)] := by
  induction table with
  | nil => rfl
  | cons entry rest ih =>
    obtain ⟨n, v⟩ := entry
    rw [List.forall_mem_cons] at h
    have hne : name ≠ n := fun heq => String.lt_irrefl n (heq ▸ h.1)
    have hrest : update name (fun _ => value) rest = rest ++ [(name, value)] := ih h.2
    rw [put, update, if_neg hne, if_neg (String.lt_asymm h.1), hrest, List.cons_append]

/-- Entries that go on in ascending order are put one after the other. -/
theorem foldl_put_eq_append {before after : NameTable α} (h : Sorted (before ++ after)) :
    after.foldl (fun table entry => put entry.1 entry.2 table) before = before ++ after := by
  induction after generalizing before with
  | nil => exact (List.append_nil before).symm
  | cons entry after ih =>
    have hlast : ∀ e ∈ before, e.1 < entry.1 := fun e he =>
      (List.pairwise_append.1 h).2.2 e he entry (List.mem_cons_self ..)
    rw [List.foldl_cons, put_eq_append _ hlast, ih (by rwa [List.append_assoc])]
    rw [List.append_assoc, List.singleton_append]

/-- **A table in ascending order is the table of its own entries.** -/
theorem ofList_eq_self (h : table.Sorted) : ofList table = table := foldl_put_eq_append h

theorem mem_of_mem_put {value : α} {entry : String × α} (h : entry ∈ put name value table) :
    entry = (name, value) ∨ entry ∈ table := by
  induction table with
  | nil => exact .inl (List.mem_singleton.1 h)
  | cons e rest ih =>
    obtain ⟨n, v⟩ := e
    rw [put, update] at h
    split at h
    · rename_i hname
      subst hname
      rcases List.mem_cons.1 h with h | h
      · exact .inl h
      · exact .inr (List.mem_cons_of_mem _ h)
    split at h
    · rcases List.mem_cons.1 h with h | h
      · exact .inl h
      · exact .inr h
    · rcases List.mem_cons.1 h with rfl | h
      · exact .inr (List.mem_cons_self ..)
      · exact (ih h).imp_right (List.mem_cons_of_mem _)

theorem mem_of_mem_foldl_put {entries : List (String × α)} {entry : String × α}
    (h : entry ∈ entries.foldl (fun table entry => put entry.1 entry.2 table) table) :
    entry ∈ entries ∨ entry ∈ table := by
  induction entries generalizing table with
  | nil => exact .inr h
  | cons e rest ih =>
    rcases ih h with h | h
    · exact .inl (List.mem_cons_of_mem _ h)
    · rcases mem_of_mem_put h with rfl | h
      · exact .inl (List.mem_cons_self ..)
      · exact .inr h

/-- The entries of a table are entries of the list. -/
theorem mem_of_mem_ofList {entries : List (String × α)} {entry : String × α}
    (h : entry ∈ ofList entries) : entry ∈ entries :=
  (mem_of_mem_foldl_put h).resolve_right List.not_mem_nil

theorem Sorted.nodup (h : table.Sorted) : (table.map Prod.fst).Nodup := by
  rw [List.Nodup, List.pairwise_map]
  refine h.imp fun {a b} hlt heq => ?_
  rw [heq] at hlt
  exact String.lt_irrefl _ hlt

end NameTable

/-! ### Synonym sets -/

namespace Text

theorem trim_trim (cs : List Char) : trim (trim cs) = trim cs := by
  have hstart : (trim cs).dropWhile isBlank = trim cs := by
    rw [List.dropWhile_eq_self_iff]
    intro hl
    have hfront : trim cs <+: cs.dropWhile isBlank := List.rdropWhile_prefix isBlank _
    have hfirst := List.dropWhile_eq_self_iff.1 (List.dropWhile_idempotent isBlank cs)
    rw [hfront.getElem hl]
    exact hfirst (Nat.lt_of_lt_of_le hl hfront.length_le)
  rw [trim, hstart]
  exact List.rdropWhile_idempotent isBlank _

theorem trimmed_trimmed (s : String) : trimmed (trimmed s) = trimmed s := by
  rw [trimmed, trimmed, String.toList_ofList, trim_trim]

end Text

theorem eraseDups_eraseDups (names : List String) :
    names.eraseDups.eraseDups = names.eraseDups := by
  induction hn : names.length using Nat.strongRecOn generalizing names with
  | ind n ih =>
    cases names with
    | nil => rfl
    | cons name names =>
      let rest := names.filter fun n => !n == name
      have hrest : (rest.eraseDups.filter fun n => !n == name) = rest.eraseDups := by
        rw [List.filter_eq_self]
        intro n hmem
        exact (List.mem_filter.1 (List.mem_eraseDups.1 hmem)).2
      have hlength : rest.length < n := by
        have hle : rest.length ≤ names.length := List.length_filter_le _ _
        rw [List.length_cons] at hn
        omega
      rw [List.eraseDups_cons, List.eraseDups_cons]
      rw [hrest, ih _ hlength rest rfl]

namespace SynonymSets

theorem distinctTerms_distinctTerms (terms : List String) :
    distinctTerms (distinctTerms terms) = distinctTerms terms := by
  have hterm {t : String} (ht : t ∈ distinctTerms terms) :
      Text.trimmed t = t ∧ (!t.isEmpty) = true := by
    rw [distinctTerms, List.mem_eraseDups, List.mem_filter, List.mem_map] at ht
    obtain ⟨⟨t, -, rfl⟩, hne⟩ := ht
    exact ⟨Text.trimmed_trimmed t, hne⟩
  have htrimmed : (distinctTerms terms).map Text.trimmed = distinctTerms terms :=
    (List.map_congr_left fun t ht => (hterm ht).1).trans (List.map_id _)
  have hkept : ((distinctTerms terms).filter fun t => !t.isEmpty) = distinctTerms terms :=
    List.filter_eq_self.2 fun t ht => (hterm ht).2
  rw [distinctTerms, htrimmed, hkept]
  exact eraseDups_eraseDups _

/-- The sets are those of their own lists of terms. -/
def IsNormal (s : SynonymSets) : Prop := ofLists? s.sets = .ok s

/-- A set is added as it is, or left out if it has no terms. -/
theorem add?_cases {s s' : SynonymSets} {terms : List String} (h : s.add? terms = .ok s') :
    s' = s ∨ s'.sets = s.sets ++ [distinctTerms terms] := by
  rw [add?, addDistinct?] at h
  split at h
  · cases h
    exact .inl rfl
  · split at h
    · cases h
    · cases h
      exact .inr rfl

theorem add?_distinctTerms (s : SynonymSets) (terms : List String) :
    s.add? (distinctTerms terms) = s.add? terms := by
  rw [add?, add?, distinctTerms_distinctTerms]

theorem isNormal_of_add? {s s' : SynonymSets} {terms : List String} (hs : s.IsNormal)
    (h : s.add? terms = .ok s') : s'.IsNormal := by
  rcases add?_cases h with rfl | hsets
  · exact hs
  · have hfold : ofLists? s.sets = .ok s := hs
    rw [IsNormal, hsets, ofLists?, List.foldlM_append]
    rw [ofLists?] at hfold
    rw [hfold]
    change (s.add? (distinctTerms terms) >>= fun s => pure s) = .ok s'
    rw [add?_distinctTerms, h]
    rfl

theorem isNormal_of_foldlM {s s' : SynonymSets} {lists : List (List String)} (hs : s.IsNormal)
    (h : lists.foldlM add? s = .ok s') : s'.IsNormal := by
  induction lists generalizing s with
  | nil =>
    cases h
    exact hs
  | cons terms lists ih =>
    rw [List.foldlM_cons, bind_eq_ok_iff] at h
    obtain ⟨middle, hmiddle, h⟩ := h
    exact ih (isNormal_of_add? hs hmiddle) h

/-- **Synonym sets that were added one by one are those of their own lists of terms.** -/
theorem isNormal_of_ofLists? {lists : List (List String)} {s : SynonymSets}
    (h : ofLists? lists = .ok s) : s.IsNormal :=
  isNormal_of_foldlM (s := empty) rfl h

end SynonymSets

/-! ### Scores -/

namespace Decimal

/-- A decimal number can be a score if it is not negative and has no zeros at its end. -/
def IsScore (d : Decimal) : Prop := d.negative = false ∧ d.normalize = d

theorem isScore_of_score? {text : String} {d : Decimal} (h : score? text = some d) : d.IsScore := by
  rw [score?, Option.bind_eq_some_iff] at h
  obtain ⟨e, -, h⟩ := h
  rw [Option.ite_none_left_eq_some] at h
  obtain ⟨hsign, h⟩ := h
  cases h
  exact ⟨negative_normalize (Bool.not_eq_true _ ▸ hsign), normalize_normalize e⟩

/-- **A score is read back from its text.** -/
theorem score?_text {d : Decimal} (h : d.IsScore) : score? d.text = some d := by
  rw [score?, parse?, text, String.toList_ofList, ofChars?_chars h.1, Option.bind_some,
    if_neg (by rw [h.1]; decide), h.2]

/-- The text of a score has no blanks. -/
theorem trimmed_text {d : Decimal} (h : d.IsScore) : Text.trimmed d.text = d.text := by
  have hblank : ∀ c ∈ d.chars, Text.isBlank c = false := fun c hc => by
    have hnumeral := isNumeralChar_of_mem_chars h.1 hc
    have hascii : Text.isAscii c = true := by
      rcases Bool.or_eq_true_iff.1 hnumeral with hdigit | hpoint
      · exact Text.isAscii_of_isAlphanum (by rw [Char.isAlphanum, hdigit, Bool.or_true])
      · rw [beq_iff_eq.1 hpoint]
        rfl
    exact Text.forall_ascii (P := fun c => isNumeralChar c = true → Text.isBlank c = false)
      (by decide) hascii hnumeral
  rw [Text.trimmed, text, String.toList_ofList, Text.trim_of_forall hblank]

end Decimal

end SearchQuery
