import Mathlib.Data.List.Basic
import SearchQuery.Proofs.Except
import SearchQuery.SynonymSets

/-!
# Lists of synonyms that share a term

Lists of terms are made into synonym sets one after the other, and the first list that has a term of
an earlier one is refused. So the sets are there exactly when no two lists have a term in common,
and whatever term is looked up belongs to one set at most.

## Lists that are left out

Blanks at the ends of terms do not count, and neither do empty terms, so a list may turn out to have
no terms at all. It is left out, and the sets after it stand at earlier positions than their lists.
The index refers to the sets, so nothing that is said here depends on where the lists were.

## Where sets are disjoint

That the index has one position for each term is part of what synonym sets are, and it is all that
is needed to see that they are disjoint. What remains for the lists is to compare them with the sets
that they become.

## Main definitions

* `SynonymSets.Apart` — two lists have no term in common
* `SynonymSets.kept` — the sets that lists become

## Main results

* `SynonymSets.sets_of_ofLists?` — the sets that are there if no list is refused
* `SynonymSets.exists_of_ofLists?_eq_error` — which list is refused, and why
* `SynonymSets.exists_ofLists?_iff_apart` — the two together, and what is looked up
-/

namespace SearchQuery

namespace SynonymSets

variable {s s' : SynonymSets} {o : SynonymOverlap} {terms : List String}
  {lists : List (List String)} {term : String}

/-! ### Lists and their terms -/

/-- The lists have no term in common but the empty one, where blanks at the ends do not count. -/
def Apart (xs ys : List String) : Prop :=
  ∀ x ∈ xs, ∀ y ∈ ys, Text.trimmed x = Text.trimmed y → Text.trimmed x = ""

instance : DecidableRel Apart := fun xs ys =>
  inferInstanceAs (Decidable (∀ x ∈ xs, ∀ y ∈ ys, Text.trimmed x = Text.trimmed y →
    Text.trimmed x = ""))

/-- The sets that the lists become, in order. -/
def kept (lists : List (List String)) : List (List String) :=
  (lists.map distinctTerms).filter fun terms => !terms.isEmpty

theorem mem_distinctTerms :
    term ∈ distinctTerms terms ↔ term ≠ "" ∧ ∃ x ∈ terms, Text.trimmed x = term := by
  simp [distinctTerms, and_comm]

theorem apart_iff {xs ys : List String} :
    Apart xs ys ↔ ∀ term ∈ distinctTerms xs, term ∉ distinctTerms ys := by
  simp only [mem_distinctTerms]
  constructor
  · rintro h term ⟨hne, x, hx, rfl⟩ ⟨-, y, hy, hyx⟩
    exact hne (h x hx y hy hyx.symm)
  · intro h x hx y hy hxy
    by_contra hne
    exact h (Text.trimmed x) ⟨hne, x, hx, rfl⟩ ⟨hne, y, hy, hxy.symm⟩

theorem nodup_eraseDups : ∀ xs : List String, xs.eraseDups.Nodup
  | [] => List.nodup_nil
  | x :: xs => by
    rw [List.eraseDups_cons, List.nodup_cons]
    exact ⟨by simp, nodup_eraseDups _⟩
termination_by xs => xs.length
decreasing_by exact Nat.lt_succ_of_le (List.length_filter_le _ xs)

theorem mem_kept {set : List String} :
    set ∈ kept lists ↔ set ≠ [] ∧ ∃ terms ∈ lists, distinctTerms terms = set := by
  simp [kept, and_comm]

/-! ### Sets -/

/-- **No two sets have a term in common**, because the index has one position for each term. -/
theorem pairwise_sets (s : SynonymSets) :
    s.sets.Pairwise fun set set' => ∀ term ∈ set, term ∉ set' := by
  rw [List.pairwise_iff_getElem]
  intro i j hi hj hlt term hset hset'
  have hfirst : s.index.get? term = some i :=
    (s.get?_index term i).2 ⟨_, List.getElem?_eq_getElem hi, hset⟩
  have hsecond : s.index.get? term = some j :=
    (s.get?_index term j).2 ⟨_, List.getElem?_eq_getElem hj, hset'⟩
  cases hfirst.symm.trans hsecond
  exact Nat.lt_irrefl i hlt

/-- The terms of a set are all looked up in the same way. -/
theorem get?_eq_of_mem {set : List String} (hset : set ∈ s.sets) {t u : String} (ht : t ∈ set)
    (hu : u ∈ set) : s.get? t = s.get? u :=
  (get?_eq_some_iff.2 ⟨hset, ht⟩).trans (get?_eq_some_iff.2 ⟨hset, hu⟩).symm

/-! ### One list after the other -/

/-- A list becomes a set, or is left out if it has no terms. -/
theorem sets_of_add? (h : s.add? terms = .ok s') : s'.sets = s.sets ++ kept [terms] := by
  rw [add?, addDistinct?] at h
  split at h
  · rename_i hnil
    cases h
    simp [kept, hnil]
  · rename_i hne
    split at h
    · cases h
    · cases h
      simp [kept, hne, push]

/-- **A list is refused** on account of its first term that belongs to a set. -/
theorem exists_of_add?_eq_error (h : s.add? terms = .error o) :
    o.current = distinctTerms terms ∧ s.get? o.term = some o.previous ∧
      ∃ front back : List String, distinctTerms terms = front ++ o.term :: back ∧
        ∀ t ∈ front, s.get? t = none := by
  rw [add?, addDistinct?] at h
  split at h
  · cases h
  split at h
  · rename_i term previous hshared
    cases h
    obtain ⟨front, t, back, hterms, ht, hfront⟩ := List.findSome?_eq_some_iff.1 hshared
    obtain ⟨set, hset, heq⟩ := Option.map_eq_some_iff.1 ht
    cases heq
    exact ⟨rfl, hset, front, back, hterms, fun t ht => Option.map_eq_none_iff.1 (hfront t ht)⟩
  · cases h

theorem kept_append (xs ys : List (List String)) : kept (xs ++ ys) = kept xs ++ kept ys := by
  simp [kept]

theorem sets_of_foldlM (h : lists.foldlM add? s = .ok s') : s'.sets = s.sets ++ kept lists := by
  induction lists generalizing s with
  | nil =>
    cases h
    simp [kept]
  | cons terms lists ih =>
    rw [List.foldlM_cons, bind_eq_ok_iff] at h
    obtain ⟨middle, hmiddle, hrest⟩ := h
    rw [ih hrest, sets_of_add? hmiddle, List.append_assoc, ← kept_append, List.singleton_append]

/-- The lists before the first one that is refused have become sets. -/
theorem exists_of_foldlM_eq_error (h : lists.foldlM add? s = .error o) :
    ∃ (before : List (List String)) (terms : List String) (after : List (List String))
      (middle : SynonymSets), lists = before ++ terms :: after ∧
      before.foldlM add? s = .ok middle ∧ middle.add? terms = .error o := by
  induction lists generalizing s with
  | nil => cases h
  | cons terms lists ih =>
    rw [List.foldlM_cons, bind_eq_error_iff] at h
    rcases h with hrefused | ⟨next, hnext, hrest⟩
    · exact ⟨[], terms, lists, s, rfl, rfl, hrefused⟩
    · obtain ⟨before, terms', after, middle, rfl, hbefore, hrefused⟩ := ih hrest
      refine ⟨terms :: before, terms', after, middle, rfl, ?_, hrefused⟩
      rw [List.foldlM_cons, hnext]
      exact hbefore

/-! ### All lists -/

theorem sets_of_ofLists? (h : ofLists? lists = .ok s) : s.sets = kept lists :=
  sets_of_foldlM h

/-- Lists that become sets are apart, because the sets are. -/
theorem pairwise_apart_of_ofLists? (h : ofLists? lists = .ok s) : lists.Pairwise Apart := by
  have hsets := s.pairwise_sets
  rw [sets_of_ofLists? h, kept, List.pairwise_filter, List.pairwise_map] at hsets
  refine hsets.imp fun {xs ys} hdisjoint => apart_iff.2 fun term hx hy => ?_
  have hxs : (!(distinctTerms xs).isEmpty) = true := by simpa using List.ne_nil_of_mem hx
  have hys : (!(distinctTerms ys).isEmpty) = true := by simpa using List.ne_nil_of_mem hy
  exact hdisjoint hxs hys term hx hy

/-- **Which list is refused.** The lists before it are apart from each other, and its first term
that is a term of one of them is named together with that list. -/
theorem exists_of_ofLists?_eq_error (h : ofLists? lists = .error o) :
    ∃ (before : List (List String)) (terms : List String) (after : List (List String)),
      lists = before ++ terms :: after ∧ before.Pairwise Apart ∧
      o.current = distinctTerms terms ∧
      (∃ earlier ∈ before, o.previous = distinctTerms earlier ∧ o.term ∈ o.previous) ∧
      ∃ front back : List String, o.current = front ++ o.term :: back ∧
        ∀ t ∈ front, ∀ earlier ∈ before, t ∉ distinctTerms earlier := by
  obtain ⟨before, terms, after, middle, rfl, hbefore, hrefused⟩ := exists_of_foldlM_eq_error h
  obtain ⟨hcurrent, hprevious, front, back, hterms, hfront⟩ := exists_of_add?_eq_error hrefused
  have hsets : middle.sets = kept before := sets_of_ofLists? hbefore
  obtain ⟨hmem, hterm⟩ := get?_eq_some_iff.1 hprevious
  rw [hsets, mem_kept] at hmem
  obtain ⟨-, earlier, hearlier, heq⟩ := hmem
  refine ⟨before, terms, after, rfl, pairwise_apart_of_ofLists? hbefore, hcurrent,
    ⟨earlier, hearlier, heq.symm, hterm⟩, front, back, hcurrent.trans hterms, ?_⟩
  intro t ht earlier hearlier hmem
  refine get?_eq_none_iff.1 (hfront t ht) (distinctTerms earlier) ?_ hmem
  rw [hsets, mem_kept]
  exact ⟨List.ne_nil_of_mem hmem, earlier, hearlier, rfl⟩

/-- **When lists of terms become synonym sets.** They do if and only if no two of them have a term
in common. The sets are then the lists without blanks at the ends of terms, empty terms, repetitions
and empty lists, in order. A term is looked up as the set that it belongs to, which is the only one,
so the terms of a set are all looked up as the same set. Otherwise the first list that has a term of
an earlier one is refused, and named with its first such term and the earlier list. -/
theorem exists_ofLists?_iff_apart (lists : List (List String)) :
    ((∃ s, ofLists? lists = .ok s) ↔ lists.Pairwise Apart) ∧
    (∀ s, ofLists? lists = .ok s →
      s.sets = ((lists.map distinctTerms).filter fun terms => !terms.isEmpty) ∧
      (∀ set ∈ s.sets, set.Nodup) ∧
      s.sets.Pairwise (fun set set' => ∀ term ∈ set, term ∉ set') ∧
      (∀ term set, s.get? term = some set ↔ set ∈ s.sets ∧ term ∈ set) ∧
      ∀ set ∈ s.sets, ∀ t ∈ set, ∀ u ∈ set, s.get? t = s.get? u) ∧
    ∀ o, ofLists? lists = .error o →
      ∃ (before : List (List String)) (terms : List String) (after : List (List String)),
        lists = before ++ terms :: after ∧ before.Pairwise Apart ∧
        o.current = distinctTerms terms ∧
        (∃ earlier ∈ before, o.previous = distinctTerms earlier ∧ o.term ∈ o.previous) ∧
        ∃ front back : List String, o.current = front ++ o.term :: back ∧
          ∀ t ∈ front, ∀ earlier ∈ before, t ∉ distinctTerms earlier := by
  refine ⟨⟨fun ⟨s, hs⟩ => pairwise_apart_of_ofLists? hs, fun hapart => ?_⟩, fun s hs => ?_,
    fun o => exists_of_ofLists?_eq_error⟩
  · cases hresult : ofLists? lists with
    | ok s => exact ⟨s, rfl⟩
    | error o =>
      -- the refused list shares its term with an earlier one
      obtain ⟨before, terms, after, rfl, -, hcurrent, ⟨earlier, hearlier, heq, hterm⟩, front, back,
        hsplit, -⟩ := exists_of_ofLists?_eq_error hresult
      have hpair : Apart earlier terms :=
        (List.pairwise_append.1 hapart).2.2 earlier hearlier terms List.mem_cons_self
      refine absurd ?_ (apart_iff.1 hpair o.term (heq ▸ hterm))
      rw [← hcurrent, hsplit]
      exact List.mem_append_right front List.mem_cons_self
  · refine ⟨sets_of_ofLists? hs, fun set hset => ?_, s.pairwise_sets,
      fun term set => get?_eq_some_iff, fun set hset t ht u => get?_eq_of_mem hset ht⟩
    rw [sets_of_ofLists? hs, mem_kept] at hset
    obtain ⟨-, terms, -, rfl⟩ := hset
    exact nodup_eraseDups _

/-- A repeated term and a list of blanks are left out, and a term that two lists have is refused. -/
theorem exists_ofLists?_iff_apart_cat :
    (∃ s, ofLists? [["cat", " cat", "puss "], [" "], ["dog"]] = .ok s ∧
      s.sets = [["cat", "puss"], ["dog"]] ∧ s.get? "puss" = some ["cat", "puss"]) ∧
    ¬ ∃ s, ofLists? [["cat", "puss"], ["dog"], ["hound", "dog "]] = .ok s := by
  obtain ⟨happen, hsets, -⟩ := exists_ofLists?_iff_apart [["cat", " cat", "puss "], [" "], ["dog"]]
  obtain ⟨hrefuse, -⟩ := exists_ofLists?_iff_apart [["cat", "puss"], ["dog"], ["hound", "dog "]]
  constructor
  · obtain ⟨s, hs⟩ := happen.2 (by decide +kernel)
    obtain ⟨hkept, -, -, hget, -⟩ := hsets s hs
    have hlist : s.sets = [["cat", "puss"], ["dog"]] := hkept.trans (by decide +kernel)
    exact ⟨s, hs, hlist, (hget _ _).2 (by rw [hlist]; decide)⟩
  · rw [hrefuse]
    decide +kernel

end SynonymSets

end SearchQuery
