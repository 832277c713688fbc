import SearchQuery.Pass.Basic
import SearchQuery.Context

/-!
# Pairing misspelled words with their corrections

A word directly in a group, or alone, that has a correction becomes a group of alternatives: the
word and its correction. Only queries in some languages are corrected.

The words of a group are corrected when the group is looked at and not one by one. A word right
below a sign or a boost is therefore left alone, and so is a fuzzy word or a bound of a range.
Searches in fields are left alone with all they hold. The pairs are looked into afterwards, where
the words stand among alternatives and are not corrected again.

What corrects words is a parameter. Nothing is assumed of it: it may correct a word to itself, and
then the word stays as it is.

## Main definitions

* `Corrector` — what corrects words
* `Expr.corrected` — a node with its correction as an alternative
* `Pass.spelling` — the pass

## Main results

* `Expr.corrected_cases` — a node stays as it is or is paired
* `SpellingSettings.transform_cases` — what becomes of a node
-/

namespace SearchQuery

/-- The likely intended word for a word that looks wrong. -/
abbrev Corrector := String → Option String

/-- A word with its correction as an alternative, if it has a different one. -/
def Expr.corrected (correct? : Corrector) : Expr → Expr
  | .word value =>
    match correct? value with
    | some better =>
      if better = value then .word value else .synonyms [.word value, .word better]
    | none => .word value
  | e => e

/-- A node stays as it is, or it is a word and is paired with another one. -/
theorem Expr.corrected_cases (correct? : Corrector) (e : Expr) :
    e.corrected correct? = e ∨
      ∃ value better, e = .word value ∧ correct? value = some better ∧ better ≠ value ∧
        e.corrected correct? = .synonyms [.word value, .word better] := by
  cases e with
  | word value =>
    rw [corrected]
    split
    · rename_i better hbetter
      split
      · exact .inl rfl
      · rename_i hne
        exact .inr ⟨value, better, rfl, hbetter, hne, rfl⟩
    · exact .inl rfl
  | _ => exact .inl rfl

namespace SpellingSettings

/-- Whether words of the query are corrected. -/
def applies (s : SpellingSettings) (c : Context) : Bool :=
  c.language.any s.languages.contains

/-- The words directly in a group are corrected with the group, and a lone word by itself. -/
def transform (s : SpellingSettings) (correct? : Corrector) : Transform Context :=
  fun e parents c =>
    if s.applies c then
      match e with
      | .group operands => (.keep (.group (operands.map (Expr.corrected correct?))), c)
      | .word value =>
        if parents.isEmpty then (.final ((Expr.word value).corrected correct?), c)
        else (.keep (.word value), c)
      | e => (.keep e, c)
    else (.final e, c)

/-- What becomes of a node. -/
theorem transform_cases (s : SpellingSettings) (correct? : Corrector) (e : Expr)
    (parents : List Kind) (c : Context) :
    s.applies c = false ∧ s.transform correct? e parents c = (.final e, c) ∨
    s.applies c = true ∧
      ((∃ operands, e = .group operands ∧ s.transform correct? e parents c =
          (.keep (.group (operands.map (Expr.corrected correct?))), c)) ∨
        (∃ value, e = .word value ∧ parents = [] ∧
          s.transform correct? e parents c = (.final (e.corrected correct?), c)) ∨
        e.kind ≠ .group ∧ (e.kind = .word → parents ≠ []) ∧
          s.transform correct? e parents c = (.keep e, c)) := by
  cases happlies : s.applies c with
  | false => exact .inl ⟨rfl, by simp [transform, happlies]⟩
  | true =>
    refine .inr ⟨rfl, ?_⟩
    cases e with
    | group operands => exact .inl ⟨operands, rfl, if_pos happlies⟩
    | word value =>
      refine .inr ?_
      cases parents with
      | nil => exact .inl ⟨value, rfl, rfl, if_pos happlies⟩
      | cons =>
        exact .inr ⟨Kind.noConfusion, fun _ => List.cons_ne_nil _ _, if_pos happlies⟩
    | _ => exact .inr (.inr ⟨Kind.noConfusion, Kind.noConfusion, if_pos happlies⟩)

/-- A pair weighs two more than the word, one less than what a group adds to its operands. -/
theorem weight_corrected_le (correct? : Corrector) (e : Expr) :
    (e.corrected correct?).weight ≤ e.weight + 2 := by
  obtain h | ⟨value, better, rfl, -, -, h⟩ := e.corrected_cases correct? <;> rw [h]
  · omega
  · simp [Expr.weight, Expr.weightAll]

theorem transform_descends (s : SpellingSettings) (correct? : Corrector) :
    (s.transform correct?).Descends fun _ e => e.weight := by
  intro e parents c e' h d hd
  obtain ⟨-, hstep⟩ | ⟨-, ⟨operands, rfl, hstep⟩ | ⟨value, -, -, hstep⟩ | ⟨-, -, hstep⟩⟩ :=
    s.transform_cases correct? e parents c <;> rw [hstep] at h <;> cases h
  · obtain ⟨o, ho, rfl⟩ := List.mem_map.1 hd
    have := weight_corrected_le correct? o
    have := Expr.weight_le_weightAll ho
    simp only [Expr.weight]
    omega
  · exact Expr.weight_lt_of_mem_children hd

end SpellingSettings

/-- The pass that pairs misspelled words with their corrections, except in fields. -/
def Pass.spelling (s : SpellingSettings) (correct? : Corrector) : Pass Context :=
  (Pass.ofTransform .parentsFirst (s.transform correct?)
    (s.transform_descends correct?)).ignoring [.field]

end SearchQuery
