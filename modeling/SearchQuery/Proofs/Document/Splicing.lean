import SearchQuery.Proofs.Document.Matching

/-!
# Clauses in the place of a clause

A combination of clauses whose members are replaced by the clauses of combinations. Whether the
large combination matches is told from the small ones as long as the clauses of each small one take
the same part.

## What may differ

Clauses that only count when they match decide nothing next to one that has to match, so nothing is
asked about their replacements there. And where every other clause must not match, the one that is
left may be replaced by clauses that take any part.

## Main results

* `Document.matches_boolean_flatMap` — a combination of combinations
* `Document.matches_boolean_between` — clauses between ones that must not match
-/

namespace SearchQuery.Document

variable {v : Document → Prop} {as bs cs : List (Occur × Document)}

theorem matches_boolean_of_must (h : ∀ c ∈ cs, c.1 = .must) :
    (boolean cs).Matches v ↔ ∀ c ∈ cs, c.2.Matches v := by
  rw [matches_boolean]
  constructor
  · rintro ⟨hmust, -, -⟩ c hc
    exact hmust c hc (h c hc)
  · refine fun hall => ⟨fun c hc _ => hall c hc, fun c hc hnot => ?_, ?_⟩
    · rw [h c hc] at hnot
      cases hnot
    · rintro ⟨c, hc, hshould⟩
      rw [h c hc] at hshould
      cases hshould

theorem matches_boolean_of_mustNot (h : ∀ c ∈ cs, c.1 = .mustNot) :
    (boolean cs).Matches v ↔ ∀ c ∈ cs, ¬ c.2.Matches v := by
  rw [matches_boolean]
  constructor
  · rintro ⟨-, hnot, -⟩ c hc
    exact hnot c hc (h c hc)
  · refine fun hall => ⟨fun c hc hmust => ?_, fun c hc _ => hall c hc, ?_⟩
    · rw [h c hc] at hmust
      cases hmust
    · rintro ⟨c, hc, hshould⟩
      rw [h c hc] at hshould
      cases hshould

/-- Clauses that must not match are no alternative to others. -/
theorem matches_boolean_between (h : ∀ c ∈ as ++ cs, c.1 = .mustNot) :
    (boolean (as ++ (bs ++ cs))).Matches v ↔
      (boolean (as ++ cs)).Matches v ∧ (boolean bs).Matches v := by
  have hmem (c : Occur × Document) : c ∈ as ++ (bs ++ cs) ↔ c ∈ as ++ cs ∨ c ∈ bs := by
    simp only [List.mem_append]
    grind
  have hpart {c : Occur × Document} (hc : c ∈ as ++ cs) : c.1 ≠ .must ∧ c.1 ≠ .should := by
    rw [h c hc]
    exact ⟨Occur.noConfusion, Occur.noConfusion⟩
  rw [matches_boolean_of_mustNot h, matches_boolean, matches_boolean]
  constructor
  · rintro ⟨hmust, hnot, hshould⟩
    refine ⟨fun c hc => hnot c ((hmem c).2 (.inl hc)) (h c hc),
      fun c hc => hmust c ((hmem c).2 (.inr hc)), fun c hc => hnot c ((hmem c).2 (.inr hc)), ?_⟩
    rintro ⟨c, hc, hpartOfC⟩ hnone
    obtain ⟨b, hb, hpartOfB, hmatches⟩ := hshould ⟨c, (hmem c).2 (.inr hc), hpartOfC⟩ fun c hc =>
      ((hmem c).1 hc).elim (fun hc => (hpart hc).1) (hnone c)
    have hbs := ((hmem b).1 hb).resolve_left fun hb => (hpart hb).2 hpartOfB
    exact ⟨b, hbs, hpartOfB, hmatches⟩
  · rintro ⟨hout, hmust, hnot, hshould⟩
    refine ⟨fun c hc hpartOfC => ?_, fun c hc hpartOfC => ?_, ?_⟩
    · exact hmust c (((hmem c).1 hc).resolve_left fun hc => (hpart hc).1 hpartOfC) hpartOfC
    · exact ((hmem c).1 hc).elim (hout c) fun hc => hnot c hc hpartOfC
    · rintro ⟨c, hc, hpartOfC⟩ hnone
      have hbs := ((hmem c).1 hc).resolve_left fun hc => (hpart hc).2 hpartOfC
      obtain ⟨b, hb, hb'⟩ := hshould ⟨c, hbs, hpartOfC⟩ fun c hc => hnone c ((hmem c).2 (.inr hc))
      exact ⟨b, (hmem b).2 (.inr hb), hb'⟩

section Parts

variable {ι : Type} {xs : List ι} {clauses : ι → List (Occur × Document)}

/-- **A combination of combinations**, each of which has clauses of one part. -/
theorem matches_boolean_flatMap (occur : ι → Occur) (hne : ∀ x ∈ xs, clauses x ≠ [])
    (hoccur : ∀ x ∈ xs, ∀ c ∈ clauses x, c.1 = occur x) :
    (boolean (xs.flatMap clauses)).Matches v ↔
      (∀ x ∈ xs, occur x ≠ .should → (boolean (clauses x)).Matches v) ∧
        ((∃ x ∈ xs, occur x = .should) → (∀ x ∈ xs, occur x ≠ .must) →
          ∃ x ∈ xs, occur x = .should ∧ (boolean (clauses x)).Matches v) := by
  have hmust : ∀ x ∈ xs, occur x = .must →
      ((boolean (clauses x)).Matches v ↔ ∀ c ∈ clauses x, c.2.Matches v) := fun x hx h =>
    matches_boolean_of_must fun c hc => (hoccur x hx c hc).trans h
  have hmustNot : ∀ x ∈ xs, occur x = .mustNot →
      ((boolean (clauses x)).Matches v ↔ ∀ c ∈ clauses x, ¬ c.2.Matches v) := fun x hx h =>
    matches_boolean_of_mustNot fun c hc => (hoccur x hx c hc).trans h
  have hshould : ∀ x ∈ xs, occur x = .should →
      ((boolean (clauses x)).Matches v ↔ ∃ c ∈ clauses x, c.2.Matches v) := fun x hx h =>
    matches_boolean_of_should (hne x hx) fun c hc => (hoccur x hx c hc).trans h
  rw [matches_boolean]
  simp only [List.mem_flatMap]
  constructor
  · rintro ⟨hall, hnone, hsome⟩
    refine ⟨fun x hx hpart => ?_, fun ⟨x, hx, hpart⟩ hfree => ?_⟩
    · cases hx' : occur x with
      | must =>
        exact (hmust x hx hx').2 fun c hc => hall c ⟨x, hx, hc⟩ ((hoccur x hx c hc).trans hx')
      | mustNot =>
        exact (hmustNot x hx hx').2 fun c hc =>
          hnone c ⟨x, hx, hc⟩ ((hoccur x hx c hc).trans hx')
      | should => exact absurd hx' hpart
    · obtain ⟨c, hc⟩ := List.exists_mem_of_ne_nil _ (hne x hx)
      obtain ⟨b, ⟨y, hy, hb⟩, hpartOfB, hmatches⟩ :=
        hsome ⟨c, ⟨x, hx, hc⟩, (hoccur x hx c hc).trans hpart⟩ fun c ⟨y, hy, hc⟩ =>
          hoccur y hy c hc ▸ hfree y hy
      have hpartOfY : occur y = .should := (hoccur y hy b hb).symm.trans hpartOfB
      exact ⟨y, hy, hpartOfY, (hshould y hy hpartOfY).2 ⟨b, hb, hmatches⟩⟩
  · rintro ⟨hpart, hsome⟩
    refine ⟨fun c ⟨x, hx, hc⟩ hc' => ?_, fun c ⟨x, hx, hc⟩ hc' => ?_, ?_⟩
    · have hx' : occur x = .must := (hoccur x hx c hc).symm.trans hc'
      exact (hmust x hx hx').1 (hpart x hx (by simp [hx'])) c hc
    · have hx' : occur x = .mustNot := (hoccur x hx c hc).symm.trans hc'
      exact (hmustNot x hx hx').1 (hpart x hx (by simp [hx'])) c hc
    · rintro ⟨c, ⟨x, hx, hc⟩, hc'⟩ hfree
      obtain ⟨y, hy, hy', hmatches⟩ := hsome ⟨x, hx, (hoccur x hx c hc).symm.trans hc'⟩
        fun y hy hy' => by
          obtain ⟨b, hb⟩ := List.exists_mem_of_ne_nil _ (hne y hy)
          exact hfree b ⟨y, hy, hb⟩ ((hoccur y hy b hb).trans hy')
      obtain ⟨b, hb, hb'⟩ := (hshould y hy hy').1 hmatches
      exact ⟨b, ⟨y, hy, hb⟩, (hoccur y hy b hb).trans hy', hb'⟩

/-- Each clause may be replaced by clauses that take its part and match together as it does. Of
those that only count when they match, nothing is asked next to one that has to match. -/
theorem matches_boolean_flatMap_iff {clause : ι → Occur × Document}
    (hne : ∀ x ∈ xs, clauses x ≠ []) (hoccur : ∀ x ∈ xs, ∀ c ∈ clauses x, c.1 = (clause x).1)
    (h : ∀ x ∈ xs, ((clause x).1 = .should → ∀ y ∈ xs, (clause y).1 ≠ .must) →
      ((boolean (clauses x)).Matches v ↔ (boolean [clause x]).Matches v)) :
    (boolean (xs.flatMap clauses)).Matches v ↔ (boolean (xs.map clause)).Matches v := by
  rw [List.map_eq_flatMap, matches_boolean_flatMap _ hne hoccur,
    matches_boolean_flatMap (fun x => (clause x).1) (by simp) (by simp)]
  refine and_congr (forall₂_congr fun x hx => forall_congr' fun hpart => ?_)
    (forall_congr' fun _ => forall_congr' fun hfree => ?_)
  · exact h x hx fun hshould => absurd hshould hpart
  · refine exists_congr fun x => and_congr_right fun hx => and_congr_right fun _ => ?_
    exact h x hx fun _ => hfree

end Parts

end SearchQuery.Document
