import SearchQuery.Pass.Basic
import SearchQuery.Context

/-!
# Taking marker words out of a query

A marker word, in any case, leaves the tree and is noted: the query asks for results as they are.

Only bare words are markers. A phrase of one word is not, so a marker that is meant as a word can be
typed in quotes. Where the word stands does not matter: a field, a sign or a boost around it is lost
with it, and a group with its last operand.

## Main definitions

* `MarkerSettings.isMarker` — whether a word is a marker
* `Pass.markers` — the pass

## Main results

* `MarkerSettings.transform_cases` — what becomes of a node
-/

namespace SearchQuery

namespace MarkerSettings

/-- Whether a word is a marker, whatever its case. -/
def isMarker (s : MarkerSettings) (word : String) : Bool :=
  s.forcedClean.any (Text.sameLower · word)

/-- A marker is removed and noted. -/
def transform (s : MarkerSettings) : Transform Context := fun e _ c =>
  match e with
  | .word value =>
    if s.isMarker value then (.remove, { c with isForcedClean := true }) else (.keep e, c)
  | e => (.keep e, c)

/-- What becomes of a node. -/
theorem transform_cases (s : MarkerSettings) (e : Expr) (parents : List Kind) (c : Context) :
    (∃ value, e = .word value ∧ s.isMarker value = true ∧
      s.transform e parents c = (.remove, { c with isForcedClean := true })) ∨
    (∀ value, e = .word value → s.isMarker value = false) ∧
      s.transform e parents c = (.keep e, c) := by
  cases e with
  | word value =>
    cases h : s.isMarker value with
    | true => exact .inl ⟨value, rfl, h, if_pos h⟩
    | false => exact .inr ⟨by rintro _ ⟨⟩; exact h, by simp [transform, h]⟩
  | _ => exact .inr ⟨by rintro _ ⟨⟩, rfl⟩

theorem transform_descends (s : MarkerSettings) : s.transform.Descends fun _ e => e.weight :=
  Transform.descends_of_keep_self fun e parents c e' h => by
    obtain ⟨value, -, -, hstep⟩ | ⟨-, hstep⟩ := s.transform_cases e parents c <;> rw [hstep] at h
    · cases h
    · exact (Outcome.keep.inj h).symm

end MarkerSettings

/-- The pass that takes marker words out of a query. -/
def Pass.markers (s : MarkerSettings) : Pass Context :=
  .ofTransform .parentsFirst s.transform s.transform_descends

end SearchQuery
