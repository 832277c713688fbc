import SearchQuery.Pass.Identifiers

/-!
# Replacing terms by their synonym sets

A word or phrase that stands on its own and belongs to a synonym set becomes the group of all
phrases of the set.

The set is looked up by the text of the term without its backslashes, and its phrases are put in the
order of the set, the term itself among them wherever it stands there. They are not looked into, so
one set never leads to another.

## Main definitions

* `SynonymSets.alternatives?` — the group of alternatives of a node
* `Pass.synonyms` — the pass

## Main results

* `SynonymSets.transform_cases` — what becomes of a node
-/

namespace SearchQuery

namespace SynonymSets

/-- The alternatives of a term: the phrases of its set. -/
def expand? (s : SynonymSets) (term : String) : Option Expr :=
  (s.get? (unescape term)).map fun set => .synonyms (set.map .phrase)

/-- The alternatives of a word or phrase. -/
def alternatives? (s : SynonymSets) : Expr → Option Expr
  | .word term | .phrase term => s.expand? term
  | _ => none

/-- A free term with a synonym set becomes its alternatives. -/
def transform (s : SynonymSets) : Transform Context := fun e parents c =>
  if isFree parents then
    match s.alternatives? e with
    | some group => (.final group, c)
    | none => (.keep e, c)
  else (.keep e, c)

/-- What becomes of a node. -/
theorem transform_cases (s : SynonymSets) (e : Expr) (parents : List Kind) (c : Context) :
    (∃ group, isFree parents = true ∧ s.alternatives? e = some group ∧
      s.transform e parents c = (.final group, c)) ∨
    (isFree parents = true → s.alternatives? e = none) ∧
      s.transform e parents c = (.keep e, c) := by
  cases hfree : isFree parents with
  | false => exact .inr ⟨Bool.noConfusion, by simp [transform, hfree]⟩
  | true =>
    cases halternatives : s.alternatives? e with
    | some group => exact .inl ⟨group, rfl, rfl, by simp [transform, hfree, halternatives]⟩
    | none => exact .inr ⟨fun _ => rfl, by simp [transform, hfree, halternatives]⟩

theorem transform_descends (s : SynonymSets) : s.transform.Descends fun _ e => e.weight :=
  Transform.descends_of_keep_self fun e parents c e' h => by
    obtain ⟨group, -, -, hstep⟩ | ⟨-, hstep⟩ := s.transform_cases e parents c <;> rw [hstep] at h
    · cases h
    · exact (Outcome.keep.inj h).symm

end SynonymSets

/-- The pass that replaces terms by their synonym sets. -/
def Pass.synonyms (s : SynonymSets) : Pass Context :=
  .ofTransform .parentsFirst s.transform s.transform_descends

end SearchQuery
