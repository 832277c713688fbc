import SearchQuery.Proofs.Document.AddedPhrases
import SearchQuery.Proofs.Pass.Shaping

/-!
# Added phrases that are not optional

A group of words is given the phrase that it spells as one more operand, which only counts when it
matches, like the words. A requirement over the group goes to each operand, and the phrase is then
required too. Boosts stop a requirement, groups do not. And below a range, a fuzzy word or a search
with a distance the phrase is no operand of a combination but a part of what is printed.

## Main definitions

* `Expr.RequiresPhrase` — a requirement stands over a group that is given a phrase, with groups in
  between at most
* `Expr.AddsPhrase`, `Expr.PrintsPhrase` — some group is given a phrase, and what is printed has one

## Main results

* `Expr.exists_required_iff`, `Expr.exists_printed_iff` — when a phrase is required, and printed
* `hasClause_of_addedPhrases` — where added phrases are in the document of a tree
* `hasClause_must_of_required_group` — a query of which the added phrase is required
-/

namespace SearchQuery

open SearchQuery.Expr

namespace Expr

open AddedPhrase ExactPhraseSettings

variable {e c body : Expr} {es : List Expr} {score : Decimal} {place : Place}

/-- A requirement stands over a group that is given a phrase, or over a group with such a group
among its operands. -/
def RequiresPhrase (e : Expr) : Prop :=
  e.Reaches (fun d => isOpen d.kind = false) fun d => ∃ inner, d = plus inner ∧ inner.Part Spells

/-- Some group of the tree is given a phrase. -/
def AddsPhrase (e : Expr) : Prop := e.Reaches (fun d => isScoped [d.kind] = true) Spells

/-- Some group is given a phrase below a range, a fuzzy word or a search with a distance. -/
def PrintsPhrase (e : Expr) : Prop :=
  e.Reaches (fun d => isScoped [d.kind] = true) fun d => isPrinted d.kind = true ∧ d.AddsPhrase

theorem part_group {P : Expr → Prop} :
    (group es).Part P ↔ P (group es) ∨ ∃ c ∈ es, c.Part P := by
  refine ⟨fun h => ?_, fun h => h.elim .here fun ⟨c, hc, h⟩ => .inside hc h⟩
  cases h with
  | here h => exact .inl h
  | inside hc h => exact .inr ⟨_, hc, h⟩

theorem not_part_of_ne_group (he : e.kind ≠ .group) : ¬ e.Part Spells := by
  rintro (h | -)
  · exact not_spells_of_ne_group he h
  · exact he rfl

theorem requiresPhrase_group : (group es).RequiresPhrase ↔ ∃ c ∈ es, c.RequiresPhrase := by
  rw [RequiresPhrase, reaches_iff]
  simp [kind, isOpen, children, RequiresPhrase]

theorem requiresPhrase_boost : (boost body score).RequiresPhrase ↔ body.RequiresPhrase := by
  rw [RequiresPhrase, reaches_iff]
  simp [kind, isOpen, children, RequiresPhrase]

theorem requiresPhrase_plus :
    (plus body).RequiresPhrase ↔ body.Part Spells ∨ body.RequiresPhrase := by
  rw [RequiresPhrase, reaches_iff]
  simp [kind, isOpen, children, RequiresPhrase]

theorem not_requiresPhrase (he : isOpen e.kind = false) : ¬ e.RequiresPhrase :=
  fun h => h.not_skips he

theorem addsPhrase_iff (hspells : ¬ e.Spells) (hscope : isScoped [e.kind] = false) :
    e.AddsPhrase ↔ ∃ c ∈ e.children, c.AddsPhrase := by
  rw [AddsPhrase, reaches_iff]
  simp [hscope, hspells, AddsPhrase]

theorem printsPhrase_iff (hscope : isScoped [e.kind] = false) : e.PrintsPhrase ↔
    isPrinted e.kind = true ∧ e.AddsPhrase ∨ ∃ c ∈ e.children, c.PrintsPhrase := by
  rw [PrintsPhrase, reaches_iff]
  simp [hscope, PrintsPhrase]

/-- The operands that spell a phrase are words and groups of alternatives. -/
theorem kind_of_addedPhrase? {p : String} (h : addedPhrase? es = some p) (hc : c ∈ es) :
    c.kind = .word ∨ c.kind = .synonyms := by
  obtain ⟨-, texts, htexts, -⟩ := addedPhrase?_eq_some_iff.1 h
  have hmem : c.plainText? ∈ texts.map some := htexts ▸ List.mem_map_of_mem hc
  obtain ⟨text, -, htext⟩ := List.mem_map.1 hmem
  cases c with
  | word => exact .inl rfl
  | synonyms => exact .inr rfl
  | _ => cases htext

/-- Below a group that is given a phrase nothing else is. -/
theorem Spells.not_requiresPhrase_and_not_printsPhrase (h : e.Spells) :
    ¬ e.RequiresPhrase ∧ ¬ e.PrintsPhrase := by
  obtain ⟨es, p, rfl, hspelled⟩ := h
  rw [requiresPhrase_group, printsPhrase_iff rfl]
  refine ⟨?_, ?_⟩
  · rintro ⟨c, hc, h⟩
    rcases kind_of_addedPhrase? hspelled hc with hkind | hkind
    · exact not_requiresPhrase (by rw [hkind]; rfl) h
    · exact not_requiresPhrase (by rw [hkind]; rfl) h
  · rintro (⟨h, -⟩ | ⟨c, hc, h⟩)
    · cases h
    rcases kind_of_addedPhrase? hspelled hc with hkind | hkind
    · cases c with
      | word => cases reaches_of_value?_isSome rfl h with | intro h => cases h
      | _ => cases hkind
    · exact h.not_skips (by rw [hkind]; rfl)

/-- The phrases of a tree that is given none itself are those of its children. -/
theorem exists_place_iff (hspells : ¬ e.Spells) (hscope : isScoped [e.kind] = false)
    (place' : Place) : (∃ a ∈ e.addedPhrases place, a.place = place') ↔
      ∃ c ∈ e.children, ∃ a ∈ c.addedPhrases (place.below e.kind), a.place = place' := by
  rw [addedPhrases_eq_flatMap hspells hscope]
  simp only [List.mem_flatMap]
  constructor
  · rintro ⟨a, ⟨c, hc, ha⟩, hplace⟩
    exact ⟨c, hc, a, ha, hplace⟩
  · rintro ⟨c, hc, a, ha, hplace⟩
    exact ⟨a, ⟨c, hc, ha⟩, hplace⟩

/-- A requirement of a phrase comes from a requirement of a child. -/
theorem requires_iff (hspells : ¬ e.Spells) (hscope : isScoped [e.kind] = false) (place : Place) :
    place = .required ∧ e.Part Spells ∨ place ≠ .printed ∧ e.RequiresPhrase ↔
      ∃ c ∈ e.children, place.below e.kind = .required ∧ c.Part Spells ∨
        place.below e.kind ≠ .printed ∧ c.RequiresPhrase := by
  cases e with
  | group es =>
    rw [part_group, requiresPhrase_group]
    cases place <;> simp [kind, children, Place.below, hspells, exists_or, and_or_left]
  | plus body =>
    have hpart : ¬ (plus body).Part Spells := not_part_of_ne_group Kind.noConfusion
    rw [requiresPhrase_plus]
    cases place <;> simp [kind, children, Place.below, hpart]
  | boost body score =>
    have hpart : ¬ (boost body score).Part Spells := not_part_of_ne_group Kind.noConfusion
    rw [requiresPhrase_boost]
    cases place <;> simp [kind, children, Place.below, hpart]
  | range | fuzzy | proximity | word | phrase | regex | doi | url =>
    refine iff_of_false ?_ (by simp [kind, children, Place.below])
    rintro (⟨-, hpart⟩ | ⟨-, hrequires⟩)
    · exact not_part_of_ne_group Kind.noConfusion hpart
    · exact not_requiresPhrase rfl hrequires
  | field | minus | synonyms => cases hscope

/-- **When an added phrase is required.** -/
theorem exists_required_iff (place : Place) (e : Expr) :
    (∃ a ∈ e.addedPhrases place, a.place = .required) ↔
      place = .required ∧ e.Part Spells ∨ place ≠ .printed ∧ e.RequiresPhrase := by
  by_cases hspells : e.Spells
  · obtain ⟨hrequires, -⟩ := hspells.not_requiresPhrase_and_not_printsPhrase
    have hpart : e.Part Spells := .here hspells
    obtain ⟨es, p, rfl, hspelled⟩ := hspells
    simp [addedPhrases_group_of_some hspelled, hrequires, hpart]
  cases hscope : isScoped [e.kind] with
  | true =>
    have hkind : e.kind ≠ .group ∧ isOpen e.kind = false := by
      cases e with
      | field | minus | synonyms => exact ⟨Kind.noConfusion, rfl⟩
      | _ => cases hscope
    simp [addedPhrases_of_isScoped hscope, not_part_of_ne_group hkind.1,
      not_requiresPhrase hkind.2]
  | false =>
    have hchild (c : Expr) (hc : c ∈ e.children) := by
      have hsize : sizeOf c < sizeOf e := sizeOf_lt_of_mem_children hc
      exact exists_required_iff (place.below e.kind) c
    rw [exists_place_iff hspells hscope, exists_congr fun c => and_congr_right (hchild c)]
    exact (requires_iff hspells hscope place).symm
termination_by sizeOf e

/-- **When an added phrase is printed.** -/
theorem exists_printed_iff (place : Place) (e : Expr) :
    (∃ a ∈ e.addedPhrases place, a.place = .printed) ↔
      place = .printed ∧ e.AddsPhrase ∨ e.PrintsPhrase := by
  by_cases hspells : e.Spells
  · obtain ⟨-, hprints⟩ := hspells.not_requiresPhrase_and_not_printsPhrase
    obtain ⟨es, p, rfl, hspelled⟩ := id hspells
    have hadds : (group es).AddsPhrase := .here Bool.false_ne_true hspells
    simp [addedPhrases_group_of_some hspelled, hprints, hadds]
  cases hscope : isScoped [e.kind] with
  | true =>
    have hadds : ¬ e.AddsPhrase := fun h => h.not_skips hscope
    have hprints : ¬ e.PrintsPhrase := fun h => h.not_skips hscope
    simp [addedPhrases_of_isScoped hscope, hadds, hprints]
  | false =>
    have hchild (c : Expr) (hc : c ∈ e.children) := by
      have hsize : sizeOf c < sizeOf e := sizeOf_lt_of_mem_children hc
      exact exists_printed_iff (place.below e.kind) c
    have hbelow : place.below e.kind = .printed ↔ place = .printed ∨ isPrinted e.kind = true := by
      cases e with
      | plus | boost => cases place <;> simp [kind, Place.below, isPrinted]
      | _ => simp [kind, Place.below, isPrinted]
    rw [exists_place_iff hspells hscope, exists_congr fun c => and_congr_right (hchild c),
      printsPhrase_iff hscope, addsPhrase_iff hspells hscope, hbelow]
    constructor
    · rintro ⟨c, hc, ⟨hplace | hprinted, hadds⟩ | hprints⟩
      · exact .inl ⟨hplace, c, hc, hadds⟩
      · exact .inr (.inl ⟨hprinted, c, hc, hadds⟩)
      · exact .inr (.inr ⟨c, hc, hprints⟩)
    · rintro (⟨hplace, c, hc, hadds⟩ | ⟨hprinted, c, hc, hadds⟩ | ⟨c, hc, hprints⟩)
      · exact ⟨c, hc, .inl ⟨.inl hplace, hadds⟩⟩
      · exact ⟨c, hc, .inl ⟨.inr hprinted, hadds⟩⟩
      · exact ⟨c, hc, .inr hprints⟩
termination_by sizeOf e

/-- **When all added phrases are optional.** -/
theorem forall_occur?_iff (e : Expr) :
    (∀ a ∈ e.addedPhrases .optional, a.occur? = some .should) ↔
      ¬ e.RequiresPhrase ∧ ¬ e.PrintsPhrase := by
  have hrequired := exists_required_iff .optional e
  have hprinted := exists_printed_iff .optional e
  simp only [reduceCtorEq, ne_eq, not_false_eq_true, true_and, false_and, false_or]
    at hrequired hprinted
  rw [← hrequired, ← hprinted]
  simp only [occur?_eq_should_iff]
  constructor
  · intro h
    refine ⟨?_, ?_⟩ <;> rintro ⟨a, ha, hplace⟩ <;> cases hplace.symm.trans (h a ha)
  · rintro ⟨hrequired, hprinted⟩ a ha
    cases hplace : a.place with
    | optional => rfl
    | required => exact absurd ⟨a, ha, hplace⟩ hrequired
    | printed => exact absurd ⟨a, ha, hplace⟩ hprinted

end Expr

/-- **Where added phrases are in the document of a tree.** The phrases in the list are those that
the pass adds to a filled tree. All of them only count when they match if and only if no requirement
stands over a group that is given one, with groups in between at most, and none is given one below a
range, a fuzzy word or a search with a distance. Something is left of a tree with a phrase that is
not printed. The document of what is left has the clause of each such phrase, required or not, and
the others are in its texts unless a range goes. Under other settings the document is the same
except for these clauses and for the texts with phrases in them. -/
theorem hasClause_of_addedPhrases {t : Expr} (ht : t.Filled) (s : ExactPhraseSettings)
    (c : Context) :
    (∃ d, (Pass.exactPhrase s).run t c = (some d, c) ∧
      d.terms.Perm (t.terms ++ (t.addedPhrases .optional).map fun a => .phrase a.phrase)) ∧
    ((∀ a ∈ t.addedPhrases .optional, a.occur? = some .should) ↔
      ¬ t.RequiresPhrase ∧ ¬ t.PrintsPhrase) ∧
    ((∃ a ∈ t.addedPhrases .optional, a.occur? ≠ none) →
      (runPasses (finishingPasses s) (some t) c).1 ≠ none) ∧
    ∀ e d, (runPasses (finishingPasses s) (some t) c).1 = some e → e.compile = .ok d →
      (∀ a ∈ t.addedPhrases .optional, ∀ occur, a.occur? = some occur →
        d.HasClause (occur, s.document a)) ∧
      (∀ a ∈ t.addedPhrases .optional, a.occur? = none →
        d.HasText (s.tidyClauseOf a).chars ∨ t.LosesRange s) ∧
      ∀ s', ∃ e' d', (runPasses (finishingPasses s') (some t) c).1 = some e' ∧
        e'.compile = .ok d' ∧ d.Alike s.document s'.document (t.addedPhrases .optional) d' := by
  have hleaves (s' : ExactPhraseSettings) := leaves_finished s s' ht false
  simp only [runPasses_finishingPasses]
  refine ⟨?_, ?_, ?_, ?_⟩
  · obtain ⟨d, hd, hterms⟩ := exists_phrased_terms s .optional ht
    exact ⟨d, by rw [run_exactPhrase, hd], hterms⟩
  · exact forall_occur?_iff t
  · rintro ⟨a, ha, hoccur⟩ hnone
    have h := hleaves s
    rw [hnone] at h
    exact hoccur (h.of_none a ha)
  · intro e d he hd
    have halike (s' : ExactPhraseSettings) : ∃ e' d', t.finished s' false = some e' ∧
        e'.compile = .ok d' ∧ d.Alike s.document s'.document (t.addedPhrases .optional) d' := by
      have h := hleaves s'
      rw [he] at h
      obtain ⟨e', he', h⟩ := h.of_some
      obtain ⟨d', hd', halike⟩ := h.document d hd
      exact ⟨e', d', he', hd', halike⟩
    obtain ⟨_, _, _, _, hself⟩ := halike s
    refine ⟨fun a ha occur hoccur => hself.hasClause ha hoccur, fun a ha hoccur => ?_, halike⟩
    have hprinted : a.place = .printed := AddedPhrase.occur?_eq_none_iff.1 hoccur
    refine (leaves_prints_or_losesRange s ht (by simp) ha hprinted false).imp_left ?_
    rintro ⟨e', he', hreaches⟩
    cases he.symm.trans he'
    exact hasText_of_reaches hreaches hd

theorem addedPhrase?_words : addedPhrase? [.word "a", .word "b"] = some "a b" := by decide

theorem tidyClause_words : ExactPhraseSettings.tidyClause {} "a b" 2 =
    .boost (.proximity (.phrase "a b") 1) (.ofNat 2) := rfl

/-- A requirement beside a group of two words. The phrase of the words only counts when it
matches. -/
theorem hasClause_of_addedPhrases_beside :
    ∃ t e d, parse "(a b) +c" = .ok (some t) ∧ t.Filled ∧
      ¬ t.RequiresPhrase ∧ ¬ t.PrintsPhrase ∧
      t.addedPhrases .optional = [⟨.optional, "a b", 2⟩] ∧
      (runPasses (finishingPasses {}) (some t) {}).1 = some e ∧ e.compile = .ok d ∧
      d.HasClause (.should, .boost (.freeText "\"a b\"~1") "2") := by
  have hparse : parse "(a b) +c" = .ok (some (.group [.group [.word "a", .word "b"],
      .plus (.word "c")])) := by with_unfolding_all rfl
  have hfilled : (Expr.group [.group [.word "a", .word "b"], .plus (.word "c")]).Filled :=
    (derives_of_parseTokens hparse).filled
  have hnone : addedPhrase? [.group [.word "a", .word "b"], .plus (.word "c")] = none := rfl
  have hphrases : (Expr.group [.group [.word "a", .word "b"], .plus (.word "c")]).addedPhrases
      .optional = [⟨.optional, "a b", 2⟩] := by
    simp [addedPhrases, hnone, addedPhrasesAll, addedPhrase?_words]
  have hword (v : String) : (Expr.word v).simplified = some (.word v) :=
    simplified_of_value?_isSome rfl
  have hplus : (Expr.plus (.word "c")).finished {} false = some (.plus (.word "c")) := by
    have hfilled : (Expr.word "c").Filled := all_word.2 trivial
    rw [finished_plus, finished_true hfilled Kind.noConfusion, finished_of_value?_isSome rfl,
      shaped_word, Option.bind_some, hword]
    rfl
  have hrun : (runPasses (finishingPasses {}) (some (.group [.group [.word "a", .word "b"],
      .plus (.word "c")])) {}).1 = some (.group [.word "a", .word "b",
        .boost (.proximity (.phrase "a b") 1) (.ofNat 2), .plus (.word "c")]) := by
    rw [runPasses_finishingPasses, finished_group_of_none hnone]
    simp [finished_group_of_some addedPhrase?_words, tidyClause_words, hplus, hword, signed,
      spliceGroups, gather]
  obtain ⟨-, hoptional, -, hdocument⟩ := hasClause_of_addedPhrases hfilled {} {}
  have hself : (⟨.optional, "a b", 2⟩ : AddedPhrase) ∈ (Expr.group [.group [.word "a", .word "b"],
      .plus (.word "c")]).addedPhrases .optional := by simp [hphrases]
  obtain ⟨hrequires, hprints⟩ := hoptional.1 (by simp [hphrases, AddedPhrase.occur?])
  have hclause := (hdocument _ _ hrun rfl).1 _ hself _ rfl
  exact ⟨_, _, _, hparse, hfilled, hrequires, hprints, hphrases, hrun, rfl, hclause⟩

/-- **A query of which the added phrase is required.** No combination in its document has the phrase
for a clause that only counts when it matches. -/
theorem hasClause_must_of_required_group :
    ∃ t e d, parse "+(a b)" = .ok (some t) ∧ t.Filled ∧
      t.addedPhrases .optional = [⟨.required, "a b", 2⟩] ∧
      (runPasses (finishingPasses {}) (some t) {}).1 = some e ∧ e.compile = .ok d ∧
      d = .boolean [(.must, .freeText "a"), (.must, .freeText "b"),
        (.must, .boost (.freeText "\"a b\"~1") "2")] ∧
      ¬ d.HasClause (.should, .boost (.freeText "\"a b\"~1") "2") := by
  have hparse : parse "+(a b)" = .ok (some (.plus (.group [.word "a", .word "b"]))) := by
    with_unfolding_all rfl
  have hplus (v : String) :
      (Expr.plus (.word v)).shaped.bind simplified = some (.plus (.word v)) := by
    have hword : (Expr.word v).simplified = some (.word v) := simplified_of_value?_isSome rfl
    have hshaped : (Expr.plus (.word v)).shaped = some (.plus (.word v)) :=
      (shaped_plus Kind.noConfusion).trans (by rw [shaped_word]; rfl)
    simp [hshaped, hword]
  have hrun : (runPasses (finishingPasses {}) (some (.plus (.group [.word "a", .word "b"]))) {}).1 =
      some (.group [.plus (.word "a"), .plus (.word "b"),
        .plus (.boost (.proximity (.phrase "a b") 1) (.ofNat 2))]) := by
    rw [runPasses_finishingPasses, finished_plus, finished_group_of_some addedPhrase?_words]
    simp [tidyClause_words, hplus, signed, spliceGroups]
  refine ⟨_, _, _, hparse, (derives_of_parseTokens hparse).filled, rfl, hrun, rfl, rfl, fun h => ?_⟩
  cases h with
  | here h =>
    obtain ⟨_, ⟨⟩, h⟩ := h
    simp at h
  | clause hd h =>
    simp only [List.mem_cons, Prod.mk.injEq, List.not_mem_nil, or_false] at hd
    rcases hd with ⟨-, rfl⟩ | ⟨-, rfl⟩ | ⟨-, rfl⟩
    · cases h with | here h => obtain ⟨_, ⟨⟩, _⟩ := h
    · cases h with | here h => obtain ⟨_, ⟨⟩, _⟩ := h
    · cases h with
      | here h => obtain ⟨_, ⟨⟩, _⟩ := h
      | boost h => cases h with | here h => obtain ⟨_, ⟨⟩, _⟩ := h

end SearchQuery
