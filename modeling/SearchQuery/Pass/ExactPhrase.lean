import SearchQuery.Pass.Basic
import SearchQuery.Context

/-!
# Adding the phrase that a group of words spells

A group of at least two words gets one more operand: the phrase of its words, with a distance and a
weight. A group of alternatives counts as the word or phrase that it begins with. Nothing is added
in a field, below an exclusion or among alternatives.

No other operand may be among them, not even a phrase. The weight is the number of words if the
settings give none. Requirements, boosts, ranges and distances around a group do not hinder it, and
neither do other groups.

The group with the phrase is not looked into. Its operands are words and alternatives, below which
nothing is added, and the search for the phrase holds no group.

## Main definitions

* `Expr.plainText?` — the text that an operand stands for
* `Expr.spelledPhrase?` — the phrase that some operands spell
* `Pass.exactPhrase` — the pass

## Main results

* `ExactPhraseSettings.transform_cases` — what becomes of a node
-/

namespace SearchQuery

/-- The text that an operand stands for. -/
def Expr.plainText? : Expr → Option String
  | .word value => some value
  | .synonyms (.word value :: _) => some value
  | .synonyms (.phrase value :: _) => some value
  | _ => none

/-- The phrase that some operands spell. -/
def Expr.spelledPhrase? (operands : List Expr) : Option String :=
  (operands.mapM Expr.plainText?).map (" ".intercalate ·)

namespace ExactPhraseSettings

/-- The search for a phrase of so many words. -/
def clause (s : ExactPhraseSettings) (phrase : String) (count : Nat) : Expr :=
  let near := Expr.proximity (.phrase phrase) s.slop
  let placed : Expr := match s.field with
    | some field => .field field near
    | none => near
  placed.boosted (s.score.getD (.ofNat count))

/-- Whether nothing is added to a group with these nodes around it. -/
def isScoped (parents : List Kind) : Bool :=
  parents.any fun kind => kind == .field || kind == .minus || kind == .synonyms

/-- A group of words gets the phrase that they spell. -/
def transform (s : ExactPhraseSettings) : Transform Context := fun e parents c =>
  match e with
  | .group operands =>
    if isScoped parents || operands.length < 2 then (.keep (.group operands), c)
    else
      match Expr.spelledPhrase? operands with
      | some phrase => (.final (.group (operands ++ [s.clause phrase operands.length])), c)
      | none => (.keep (.group operands), c)
  | e => (.keep e, c)

/-- What becomes of a node. -/
theorem transform_cases (s : ExactPhraseSettings) (e : Expr) (parents : List Kind) (c : Context) :
    (∃ operands phrase, e = .group operands ∧ isScoped parents = false ∧ 2 ≤ operands.length ∧
      Expr.spelledPhrase? operands = some phrase ∧ s.transform e parents c =
        (.final (.group (operands ++ [s.clause phrase operands.length])), c)) ∨
    (∀ operands, e = .group operands → isScoped parents = false → 2 ≤ operands.length →
      Expr.spelledPhrase? operands = none) ∧ s.transform e parents c = (.keep e, c) := by
  cases e with
  | group operands =>
    by_cases hleft : (isScoped parents || operands.length < 2) = true
    · refine .inr ⟨?_, if_pos hleft⟩
      rintro _ ⟨⟩ hscoped hlength
      simp only [hscoped, Bool.false_or, decide_eq_true_eq] at hleft
      omega
    · have hguard : isScoped parents = false ∧ 2 ≤ operands.length := by
        simp only [Bool.or_eq_true, decide_eq_true_eq, not_or, Bool.not_eq_true,
          Nat.not_lt] at hleft
        exact hleft
      cases hphrase : Expr.spelledPhrase? operands with
      | some phrase =>
        refine .inl ⟨operands, phrase, rfl, hguard.1, hguard.2, hphrase, ?_⟩
        rw [transform, if_neg hleft, hphrase]
      | none =>
        refine .inr ⟨by rintro _ ⟨⟩ - -; exact hphrase, ?_⟩
        rw [transform, if_neg hleft, hphrase]
  | _ => exact .inr ⟨by rintro _ ⟨⟩, rfl⟩

theorem transform_descends (s : ExactPhraseSettings) : s.transform.Descends fun _ e => e.weight :=
  Transform.descends_of_keep_self fun e parents c e' h => by
    obtain ⟨operands, phrase, -, -, -, -, hstep⟩ | ⟨-, hstep⟩ := s.transform_cases e parents c <;>
      rw [hstep] at h
    · cases h
    · exact (Outcome.keep.inj h).symm

end ExactPhraseSettings

/-- The pass that adds the phrase that a group of words spells. -/
def Pass.exactPhrase (s : ExactPhraseSettings) : Pass Context :=
  .ofTransform .parentsFirst s.transform s.transform_descends

end SearchQuery
