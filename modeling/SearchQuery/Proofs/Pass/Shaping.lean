import Mathlib.Logic.Basic
import SearchQuery.Proofs.Pass.Preservation
import SearchQuery.Proofs.Tree.Offers

/-!
# What shaping does to trees and to signs

Two passes bring a tree into the shape that the search engine takes. On a neutral tree they only
change how its atoms are brought together: fields go down, groups in groups are flattened, boosts by
one go, and what is offered stays the same.

## Signs

A sign before a group goes to each operand, so that a requirement becomes several and an exclusion
too, in a group in the place of the sign. The second pass puts the operands of that group into the
group around it. Followed atom by atom, a sign never loses one: each atom that the tree below the
sign offers is offered below one of the new signs, and no new sign has an atom that was not there.

## Main definitions

* `Expr.Part` — a tree has a property, or it is a group with such a tree among its operands
* `Expr.Carries` — a sign with a tree below it that offers an atom and nothing new

## Main results

* `BackendShape.exists_parentsFirst_of_neutral`, `Simplification.exists_childrenFirst_of_neutral` —
  neutral trees offer the same after each of the passes
* `BackendShape.exists_run_of_mem_operands` — where an atom below a sign is after the first pass
* `Simplification.exists_childrenFirst_of_part` — parts of a tree are operands after the second pass
* `exists_carries_of_mem_operands` — where an atom below a sign is after both
-/

namespace SearchQuery

open SearchQuery.Expr

variable {e : Expr} {parents : List Kind} {s : Context}

/-! ### Fields and phrases -/

namespace BackendShape

theorem shapePhrase_of_two_le {v : String} (h : 2 ≤ Text.wordCount v) :
    shapePhrase v = .keep (.phrase v) := by
  rw [shapePhrase]
  split
  · omega
  · omega
  · rfl

/-- A term stays as it is, unless it is a phrase of fewer than two words without a distance. -/
theorem parentsFirst_term (hvalue : e.value?.isSome = true)
    (hphrase : ∀ v, e = phrase v → 2 ≤ Text.wordCount v ∨ parents.getLast? = some .proximity) :
    (Pass.backendShape.parentsFirst parents e s).1 = some e := by
  have htransform : transform e parents s = (.keep e, s) := by
    cases e with
    | phrase v =>
      rcases hphrase v rfl with hwords | hparent
      · simp [transform, shapePhrase_of_two_le hwords]
      · simp [transform, hparent]
    | word | regex | doi | url => rfl
    | _ => cases hvalue
  have hrun := Pass.parentsFirst_of_keep (p := .backendShape) rfl htransform
  rw [hrun, mapChildren_of_value?_isSome hvalue]

theorem transform_of_isAtom (he : e.IsAtom) (parents : List Kind) (s : Context) :
    transform e parents s = (.keep e, s) := by
  cases e with
  | phrase v => simp [transform, shapePhrase_of_two_le (he.2 v rfl)]
  | word | regex | doi | url | range | fuzzy | proximity => rfl
  | group | synonyms | field | boost | plus | minus => cases he.1

/-- Atoms stay as they are. -/
theorem parentsFirst_of_isAtom (he : e.IsAtom) :
    (Pass.backendShape.parentsFirst parents e s).1 = some e := by
  have hrun := Pass.parentsFirst_of_keep (p := .backendShape) rfl (transform_of_isAtom he parents s)
  rw [hrun]
  refine mapChildren_eq_self he.hasOperands fun c hc t => ?_
  obtain ⟨hvalue, hphrase⟩ := he.of_mem_children hc
  refine parentsFirst_term hvalue fun v hv => (hphrase v hv).imp_right fun hkind => ?_
  simp [hkind]

theorem pushField_replaces (he : e.Neutral) (name : String) :
    (e.pushField name).kind.isNeutral = true ∧ (e.pushField name).Replaces (field name e) := by
  have hfield : (field name e).Replaces (field name e) := (neutral_field.2 he).replaces
  cases e with
  | group | synonyms | boost =>
    refine ⟨rfl, ?_, ?_⟩
    · simpa [pushField] using he
    · simp [pushField]
  | plus | minus =>
    cases he with
    | atom h => cases h.1
    | node h => cases h
  | _ => exact ⟨rfl, hfield⟩

/-- A neutral node that is no atom is kept, or it is a field that goes one level down. -/
theorem exists_transform_of_isNeutral (he : e.Neutral) (hkind : e.kind.isNeutral = true)
    (parents : List Kind) (s : Context) :
    ∃ d, transform e parents s = (.keep d, s) ∧ d.kind.isNeutral = true ∧ d.Replaces e := by
  cases e with
  | field name body =>
    obtain ⟨hneutral, hreplaces⟩ := pushField_replaces (neutral_field.1 he) name
    exact ⟨_, rfl, hneutral, hreplaces⟩
  | group | synonyms | boost => exact ⟨_, rfl, rfl, he.replaces⟩
  | _ => cases hkind

theorem exists_parentsFirst_of_neutral {e : Expr} (he : e.Neutral) (parents : List Kind)
    (s : Context) :
    ∃ e', (Pass.backendShape.parentsFirst parents e s).1 = some e' ∧ e'.Replaces e := by
  by_cases hkind : e.kind.isNeutral = true
  · obtain ⟨d, htransform, hneutral, hreplaces⟩ :=
      exists_transform_of_isNeutral he hkind parents s
    have hrun := Pass.parentsFirst_of_keep (p := .backendShape) rfl htransform
    have hchild (c : Expr) (hc : c ∈ d.children) (t : Context) (hneutral : c.Neutral) :
        ∃ c', (Pass.backendShape.parentsFirst (parents ++ [d.kind]) c t).1 = some c' ∧
          c'.Replaces c := by
      have hweight : c.weight < e.weight :=
        transform_descends e parents s d (congrArg Prod.fst htransform) c hc
      exact exists_parentsFirst_of_neutral hneutral _ t
    obtain ⟨e', he', -, hnew⟩ := hreplaces.neutral.exists_mapChildren (s := s) hneutral
      (f := fun c _ s => Pass.backendShape.parentsFirst (parents ++ [d.kind]) c s) hchild
    exact ⟨e', hrun ▸ he', hnew.trans hreplaces⟩
  · cases he with
    | node hneutral => exact absurd hneutral hkind
    | atom hatom => exact ⟨e, parentsFirst_of_isAtom hatom, (Neutral.replaces (.atom hatom))⟩
termination_by e.weight

end BackendShape

/-! ### Signs -/

namespace Expr

/-- The tree has the property, or it is a group with such a tree among its operands. -/
inductive Part (P : Expr → Prop) : Expr → Prop where
  /-- The tree has it. -/
  | here {e : Expr} (h : P e) : Part P e
  /-- An operand has it, or one of its operands has. -/
  | inside {es : List Expr} {c : Expr} (hc : c ∈ es) (h : Part P c) : Part P (group es)

theorem Part.imp {P Q : Expr → Prop} (hPQ : ∀ e, P e → Q e) (h : e.Part P) : e.Part Q := by
  induction h with
  | here h => exact .here (hPQ _ h)
  | inside hc _ ih => exact .inside hc ih

/-- The node is a sign, the tree below it offers the atom, and it offers nothing that `e` does not
offer. -/
def Carries (sign : Expr → Expr) (e : Expr) (a : Option String × Expr) (d : Expr) : Prop :=
  ∃ e', d = sign e' ∧ e'.Neutral ∧ e'.Offers none a ∧ ∀ b, e'.Offers none b → e.Offers none b

variable {sign : Expr → Expr} {a : Option String × Expr}

theorem Carries.of_mem_children {c d : Expr} (hkind : e.kind.isNeutral = true)
    (hname : e.fieldName? = none) (hc : c ∈ e.children) (h : Carries sign c a d) :
    Carries sign e a d := by
  obtain ⟨e', hd, hneutral, ha, hold⟩ := h
  refine ⟨e', hd, hneutral, ha, fun b hb => (offers_of_isNeutral hkind).2 ⟨c, hc, ?_⟩⟩
  rw [hname]
  exact hold b hb

end Expr

namespace BackendShape

variable {sign : Expr → Expr} {a : Option String × Expr}

/-- A sign goes to the operands of a group, or it stays. An exclusion goes to alternatives too. -/
theorem transform_sign (hsign : sign = plus ∨ sign = minus) (e : Expr) (parents : List Kind)
    (s : Context) :
    (e.kind.isNeutral = true ∧ e.fieldName? = none ∧
      transform (sign e) parents s = (.keep (group (e.children.map sign)), s)) ∨
    transform (sign e) parents s = (.keep (sign e), s) := by
  rcases hsign with rfl | rfl
  · cases e with
    | group => exact .inl ⟨rfl, rfl, rfl⟩
    | _ => exact .inr rfl
  · cases e with
    | group | synonyms => exact .inl ⟨rfl, rfl, rfl⟩
    | _ => exact .inr rfl

theorem mapChildren_sign {σ : Type} (hsign : sign = plus ∨ sign = minus) {e e' : Expr} {s : σ}
    {f : Expr → σ → Option Expr × σ} (h : (f e s).1 = some e') :
    ((sign e).mapChildren (fun c _ s => f c s) s).1 = some (sign e') := by
  rcases hsign with rfl | rfl
  · exact congrArg (Option.map plus) h
  · exact congrArg (Option.map minus) h

/-- An operand that always becomes part of something makes its group part of it. -/
theorem exists_part_of_mem {σ : Type} {P : Expr → Prop} {es : List Expr} {c : Expr} {s : σ}
    {f : (c : Expr) → c ∈ (group es).children → σ → Option Expr × σ} (hc : c ∈ es)
    (hf : ∀ hc t, ∃ d, (f c hc t).1 = some d ∧ d.Part P) :
    ∃ d, ((group es).mapChildren f s).1 = some d ∧ d.Part P := by
  have hrange : (group es).kind ≠ .range := Kind.noConfusion
  obtain ⟨e', he', d, hd, hpart⟩ := exists_mapChildren_of_mem (s := s) hrange hc hf
  have hkind := (head_mapChildren he').1
  cases e' with
  | group => exact ⟨_, he', .inside hd hpart⟩
  | _ => cases hkind

/-- **Where an atom below a sign is after the pass**: below a sign in the place of the old one. -/
theorem exists_parentsFirst_of_sign (hsign : sign = plus ∨ sign = minus) {e : Expr}
    {parents : List Kind} {s : Context} (he : e.Neutral) (ha : e.Offers none a) :
    ∃ d, (Pass.backendShape.parentsFirst parents (sign e) s).1 = some d ∧
      d.Part (Carries sign e a) := by
  rcases transform_sign hsign e parents s with ⟨hkind, hname, htransform⟩ | htransform
  · have hrun := Pass.parentsFirst_of_keep (p := .backendShape) rfl htransform
    obtain ⟨c, hc, hca⟩ := (offers_of_isNeutral hkind).1 ha
    rw [hname] at hca
    have hneutral : c.Neutral := ((neutral_of_isNeutral hkind).1 he).2 c hc
    rw [hrun]
    refine exists_part_of_mem (List.mem_map_of_mem hc) fun _ t => ?_
    have hweight : c.weight < e.weight := weight_lt_of_mem_children hc
    obtain ⟨d, hd, hpart⟩ := exists_parentsFirst_of_sign hsign hneutral hca
    exact ⟨d, hd, hpart.imp fun _ hcarries => hcarries.of_mem_children hkind hname hc⟩
  · have hrun := Pass.parentsFirst_of_keep (p := .backendShape) rfl htransform
    obtain ⟨e', he', hreplaces⟩ := exists_parentsFirst_of_neutral he
      (parents ++ [(sign e).kind]) s
    refine ⟨sign e', hrun ▸ mapChildren_sign hsign he', .here ⟨e', rfl, hreplaces.neutral, ?_, ?_⟩⟩
    · exact hreplaces.offers_iff.2 ha
    · exact fun b hb => hreplaces.offers_iff.1 hb
termination_by e.weight

/-- **The same for a sign at the root of a tree or in its group.** -/
theorem exists_run_of_mem_operands (hsign : sign = plus ∨ sign = minus) {t : Expr} (he : e.Neutral)
    (ha : e.Offers none a) (hmem : sign e ∈ t.operands) (s : Context) :
    ∃ t', (Pass.backendShape.run t s).1 = some t' ∧ t'.Part (Carries sign e a) := by
  by_cases hkind : t.kind = .group
  · cases t with
    | group es =>
      have htransform : Pass.backendShape.transform (group es) [] s = (.keep (group es), s) := rfl
      have hrun := Pass.parentsFirst_of_keep (p := .backendShape) rfl htransform
      have hpart := exists_part_of_mem (s := s) (P := Carries sign e a)
        (f := fun c _ s => Pass.backendShape.parentsFirst [.group] c s) hmem fun _ t =>
          exists_parentsFirst_of_sign hsign he ha
      obtain ⟨t', ht', hpart⟩ := hpart
      exact ⟨t', (congrArg Prod.fst hrun).trans ht', hpart⟩
    | _ => cases hkind
  · rw [operands_of_ne_group hkind] at hmem
    rw [← List.mem_singleton.1 hmem]
    exact exists_parentsFirst_of_sign hsign he ha

end BackendShape

/-! ### Groups in groups, and boosts by one -/

theorem Expr.offers_iff_operands {scope : Option String} {a : Option String × Expr} :
    e.Offers scope a ↔ ∃ d ∈ e.operands, d.Offers scope a := by
  cases e with
  | group es => exact offers_group
  | _ => simp [operands]

namespace Simplification

variable {sign : Expr → Expr} {a : Option String × Expr}

theorem spliceGroups_replaces {es : List Expr} (h : (group es).Neutral) :
    (group (spliceGroups es)).Replaces (group es) := by
  obtain ⟨hne, hes⟩ := neutral_group.1 h
  refine ⟨neutral_group.2 ⟨?_, fun d hd => ?_⟩, ?_⟩
  · exact spliceGroups_ne_nil hne fun c hc => (hes c hc).hasOperands
  · obtain ⟨c, hc, hd⟩ := mem_spliceGroups.1 hd
    exact (hes c hc).of_mem_operands hd
  · intro scope a
    rw [offers_group, offers_group]
    constructor
    · rintro ⟨d, hd, hoffers⟩
      obtain ⟨c, hc, hd⟩ := mem_spliceGroups.1 hd
      exact ⟨c, hc, offers_iff_operands.2 ⟨d, hd, hoffers⟩⟩
    · rintro ⟨c, hc, hoffers⟩
      obtain ⟨d, hd, hoffers⟩ := offers_iff_operands.1 hoffers
      exact ⟨d, mem_spliceGroups.2 ⟨c, hc, hd⟩, hoffers⟩

theorem exists_transform_of_neutral (he : e.Neutral) (parents : List Kind) (s : Context) :
    ∃ d, (transform e parents s).1.tree? = some d ∧ d.Replaces e := by
  cases e with
  | group es => exact ⟨_, rfl, spliceGroups_replaces he⟩
  | boost body score =>
    simp only [transform]
    split
    · exact ⟨body, rfl, neutral_boost.1 he, offers_boost.symm⟩
    · exact ⟨_, rfl, he.replaces⟩
  | _ => exact ⟨_, rfl, he.replaces⟩

theorem childrenFirst_term (hvalue : e.value?.isSome = true) :
    (Pass.simplification.childrenFirst parents e s).1 = some e := by
  have hmap : (e.mapChildren (fun c _ s =>
      Pass.simplification.childrenFirst (parents ++ [e.kind]) c s) s).1 = some e :=
    congrArg Prod.fst (mapChildren_of_value?_isSome hvalue)
  obtain ⟨t, ht⟩ := Pass.exists_childrenFirst_eq (p := .simplification) rfl hmap
  rw [ht]
  cases e with
  | word | phrase | regex | doi | url => rfl
  | _ => cases hvalue

theorem childrenFirst_of_isAtom (he : e.IsAtom) :
    (Pass.simplification.childrenFirst parents e s).1 = some e := by
  have hmap := mapChildren_eq_self (s := s) he.hasOperands
    (f := fun c _ s => Pass.simplification.childrenFirst (parents ++ [e.kind]) c s)
    fun c hc t => childrenFirst_term (he.of_mem_children hc).1
  obtain ⟨t, ht⟩ := Pass.exists_childrenFirst_eq (p := .simplification) rfl hmap
  rw [ht]
  cases e with
  | group | boost => cases he.1
  | _ => rfl

theorem exists_childrenFirst_of_neutral (he : e.Neutral) (parents : List Kind) (s : Context) :
    ∃ e', (Pass.simplification.childrenFirst parents e s).1 = some e' ∧ e'.Replaces e := by
  induction he generalizing parents s with
  | atom hatom => exact ⟨_, childrenFirst_of_isAtom hatom, Neutral.replaces (.atom hatom)⟩
  | @node e hkind hne hchildren ih =>
    have he : e.Neutral := .node hkind hne hchildren
    obtain ⟨d, hd, -, hreplaces⟩ := he.exists_mapChildren (s := s) hkind
      (f := fun c _ s => Pass.simplification.childrenFirst (parents ++ [e.kind]) c s)
      fun c hc t _ => ih c hc (parents ++ [e.kind]) t
    obtain ⟨t, ht⟩ := Pass.exists_childrenFirst_eq (p := .simplification) rfl hd
    obtain ⟨e', he', hnew⟩ := exists_transform_of_neutral hreplaces.neutral parents t
    exact ⟨e', ht.trans he', hnew.trans hreplaces⟩

/-! ### Signs after the second pass -/

theorem exists_childrenFirst_of_carries (hsign : sign = plus ∨ sign = minus) {d : Expr}
    (h : Carries sign e a d) (parents : List Kind) (s : Context) :
    ∃ d', (Pass.simplification.childrenFirst parents d s).1 = some d' ∧ Carries sign e a d' := by
  obtain ⟨e', rfl, hneutral, ha, hold⟩ := h
  obtain ⟨e'', he'', hreplaces⟩ := exists_childrenFirst_of_neutral hneutral
    (parents ++ [(sign e').kind]) s
  have hmap := BackendShape.mapChildren_sign hsign he''
  obtain ⟨t, ht⟩ := Pass.exists_childrenFirst_eq (p := .simplification) rfl hmap
  refine ⟨sign e'', ?_, e'', rfl, hreplaces.neutral, hreplaces.offers_iff.2 ha, fun b hb =>
    hold b (hreplaces.offers_iff.1 hb)⟩
  rw [ht]
  rcases hsign with rfl | rfl <;> rfl

/-- **Parts of a tree are operands after the pass**, if they stay what they are. -/
theorem exists_childrenFirst_of_part {P : Expr → Prop} {x : Expr}
    (hP : ∀ d, P d → ∀ parents s, ∃ d',
      (Pass.simplification.childrenFirst parents d s).1 = some d' ∧ d'.kind ≠ .group ∧ P d')
    (hx : x.Part P) (parents : List Kind) (s : Context) :
    ∃ x', (Pass.simplification.childrenFirst parents x s).1 = some x' ∧ ∃ d ∈ x'.operands, P d := by
  induction hx generalizing parents s with
  | here h =>
    obtain ⟨d', hd', hkind, hPd'⟩ := hP _ h parents s
    exact ⟨d', hd', d', by simp [operands_of_ne_group hkind], hPd'⟩
  | @inside es c hc _ ih =>
    obtain ⟨e', he', c', hc', d, hd, hPd⟩ := exists_mapChildren_of_mem (e := .group es) (s := s)
      (f := fun c _ s => Pass.simplification.childrenFirst (parents ++ [.group]) c s) nofun hc
      fun _ t => ih (parents ++ [.group]) t
    have hkind := (head_mapChildren he').1
    obtain ⟨t, ht⟩ := Pass.exists_childrenFirst_eq (p := .simplification) rfl he'
    cases e' with
    | group es' =>
      exact ⟨group (spliceGroups es'), ht, d, mem_spliceGroups.2 ⟨c', hc', hd⟩, hPd⟩
    | _ => cases hkind

end Simplification

/-! ### Both passes -/

/-- **Where an atom below a sign is after both passes.** If the sign stands at the root of a tree or
in its group, the atom is below a sign at the root of what is left or in its group, and next to no
atom that was not below the old sign. -/
theorem exists_carries_of_mem_operands {sign : Expr → Expr} (hsign : sign = plus ∨ sign = minus)
    {t t' : Expr} {a : Option String × Expr} {c : Context} (he : e.Neutral) (ha : e.Offers none a)
    (hmem : sign e ∈ t.operands)
    (hrun : (runPasses [.backendShape, .simplification] (some t) c).1 = some t') :
    ∃ d ∈ t'.operands, Carries sign e a d := by
  have hstays : ∀ d, Carries sign e a d → ∀ parents s, ∃ d',
      (Pass.simplification.childrenFirst parents d s).1 = some d' ∧ d'.kind ≠ .group ∧
        Carries sign e a d' := by
    intro d hd parents s
    obtain ⟨d', hd', hcarries⟩ := Simplification.exists_childrenFirst_of_carries hsign hd parents s
    refine ⟨d', hd', ?_, hcarries⟩
    obtain ⟨e', rfl, -⟩ := hcarries
    rcases hsign with rfl | rfl <;> exact Kind.noConfusion
  obtain ⟨t₁, ht₁, hpart⟩ := BackendShape.exists_run_of_mem_operands hsign he ha hmem c
  obtain ⟨t₂, ht₂, hcarries⟩ :=
    Simplification.exists_childrenFirst_of_part hstays hpart [] (Pass.backendShape.run t c).2
  have hrun₂ : (Pass.simplification.run t₁ (Pass.backendShape.run t c).2).1 = some t₂ := ht₂
  rw [runPasses_cons, ht₁, runPasses_cons, hrun₂] at hrun
  cases hrun
  exact hcarries

end SearchQuery
