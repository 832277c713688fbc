import Mathlib.Data.List.Perm.Basic
import SearchQuery.Proofs.Pass.Conservation
import SearchQuery.Proofs.Pass.Finished

/-!
# The phrases that are added to a tree

A group of words is given the phrase that it spells, wherever it stands outside of fields,
exclusions and groups of alternatives. The phrases of a tree are listed here from left to right with
what becomes of each of them, which the nodes around the group decide.

## What becomes of a phrase

By itself the phrase is one more operand, which counts when it matches. A requirement over a group
goes to each operand, so it goes to the phrase too, and groups in between hand it down. A boost does
not. Ranges, fuzzy words and searches with a distance are printed, whatever they hold, and a phrase
that is added below one is a part of what is printed. What is read from a query has none there.

## Ranges that are lost

A bound without words goes, and takes the range with it, also when the other bound is a group that
was given a phrase. So a phrase that is printed may be lost, and no other phrase is.

## Main definitions

* `AddedPhrase`, `AddedPhrase.Place` — a phrase that is added, with what becomes of it
* `Expr.addedPhrases` — the phrases that are added to a tree, from left to right
* `Expr.LosesRange` — some range of the tree goes
* `Expr.Leaves`, `Expr.Prints` — what is left of a tree has such a node, or prints it

## Main results

* `Expr.exists_phrased_terms` — the phrases in the list are those that the pass adds
* `Expr.leaves_or_losesRange` — a phrase is a node of what is left, unless a range goes
* `Expr.leaves_prints_or_losesRange` — a phrase that is printed is part of what some node prints
-/

namespace SearchQuery

/-- What becomes of a phrase that is added. -/
inductive AddedPhrase.Place where
  /-- It counts when it matches. -/
  | optional
  /-- It has to match. -/
  | required
  /-- It is part of a text. -/
  | printed
  deriving DecidableEq, Repr

/-- A phrase that a group is given. -/
structure AddedPhrase where
  /-- What becomes of it. -/
  place : AddedPhrase.Place
  /-- The phrase. -/
  phrase : String
  /-- The number of operands that spell it. -/
  count : Nat
  deriving DecidableEq, Repr

namespace AddedPhrase

/-- What becomes of the phrases below a node of the kind. -/
def Place.below (place : Place) : Kind → Place
  | .plus => if place = .printed then .printed else .required
  | .boost => if place = .printed then .printed else .optional
  | .range | .fuzzy | .proximity => .printed
  | _ => place

/-- What becomes of the phrases of a tree below a requirement or by itself. -/
def Place.ofRequired (required : Bool) : Place := if required then .required else .optional

/-- The part that the clause of the phrase takes in the combination that it is in. A phrase that is
printed has no clause. -/
def occur? (a : AddedPhrase) : Option Occur :=
  match a.place with
  | .optional => some .should
  | .required => some .must
  | .printed => none

theorem occur?_eq_should_iff {a : AddedPhrase} :
    a.occur? = some .should ↔ a.place = .optional := by
  rw [occur?]
  cases a.place <;> simp

theorem occur?_eq_none_iff {a : AddedPhrase} : a.occur? = none ↔ a.place = .printed := by
  rw [occur?]
  cases a.place <;> simp

end AddedPhrase

/-- The search for a phrase as the last two passes leave it. -/
def ExactPhraseSettings.tidyClauseOf (s : ExactPhraseSettings) (a : AddedPhrase) : Expr :=
  s.tidyClause a.phrase a.count

namespace Expr

open AddedPhrase ExactPhraseSettings

variable {s s' : ExactPhraseSettings} {place : Place} {required : Bool} {a : AddedPhrase}
  {e d c : Expr} {es : List Expr} {p : String}

/-! ### The list of the phrases -/

mutual

/-- The phrases that are added to a tree, from left to right. -/
def addedPhrases (place : Place) : Expr → List AddedPhrase
  | .group es =>
    match addedPhrase? es with
    | some p => [⟨place, p, es.length⟩]
    | none => addedPhrasesAll place es
  | .plus inner => addedPhrases (place.below .plus) inner
  | .boost body _ => addedPhrases (place.below .boost) body
  | .range left right _ _ => addedPhrases .printed left ++ addedPhrases .printed right
  | .fuzzy body _ | .proximity body _ => addedPhrases .printed body
  | _ => []

/-- The phrases that are added to trees side by side. -/
def addedPhrasesAll (place : Place) : List Expr → List AddedPhrase
  | [] => []
  | e :: es => addedPhrases place e ++ addedPhrasesAll place es

end

theorem addedPhrasesAll_eq_flatMap (place : Place) (es : List Expr) :
    addedPhrasesAll place es = es.flatMap (addedPhrases place) := by
  induction es with
  | nil => rfl
  | cons e es ih => rw [addedPhrasesAll, ih, List.flatMap_cons]

/-- The tree is a group that is given a phrase. -/
def Spells (e : Expr) : Prop := ∃ es p, e = group es ∧ addedPhrase? es = some p

theorem not_spells_of_ne_group (he : e.kind ≠ .group) : ¬ e.Spells := by
  rintro ⟨es, p, rfl, -⟩
  exact he rfl

theorem addedPhrases_group_of_some (h : addedPhrase? es = some p) :
    (group es).addedPhrases place = [⟨place, p, es.length⟩] := by
  rw [addedPhrases, h]

/-- Nothing is added in a field, below an exclusion or among alternatives. -/
theorem addedPhrases_of_isScoped (hscope : isScoped [e.kind] = true) :
    e.addedPhrases place = [] := by
  cases e with
  | field | minus | synonyms => rfl
  | _ => cases hscope

/-- Elsewhere the phrases are those of the children. -/
theorem addedPhrases_eq_flatMap (hspells : ¬ e.Spells) (hscope : isScoped [e.kind] = false) :
    e.addedPhrases place = e.children.flatMap (addedPhrases (place.below e.kind)) := by
  cases e with
  | word | phrase | regex | doi | url => rfl
  | field | minus | synonyms => cases hscope
  | group es =>
    cases hspelled : addedPhrase? es with
    | some p => exact absurd ⟨es, p, rfl, hspelled⟩ hspells
    | none =>
      rw [addedPhrases, hspelled]
      exact addedPhrasesAll_eq_flatMap place es
  | range | plus | boost | fuzzy | proximity => simp [addedPhrases, children, kind, Place.below]

/-- Outside of groups it makes no difference whether a tree is required. -/
theorem addedPhrases_ofRequired (he : e.kind ≠ .group) (required : Bool) :
    e.addedPhrases (.ofRequired required) = e.addedPhrases .optional := by
  cases required with
  | false => rfl
  | true =>
    cases e with
    | group => exact absurd rfl he
    | _ => rfl

/-- Below what is printed all phrases are. -/
theorem place_of_mem_addedPhrases_printed {e : Expr} (ha : a ∈ e.addedPhrases .printed) :
    a.place = .printed := by
  by_cases hspells : e.Spells
  · obtain ⟨es, p, rfl, hspelled⟩ := hspells
    rw [addedPhrases_group_of_some hspelled] at ha
    rw [List.mem_singleton.1 ha]
  · cases hscope : isScoped [e.kind] with
    | true =>
      rw [addedPhrases_of_isScoped hscope] at ha
      cases ha
    | false =>
      rw [addedPhrases_eq_flatMap hspells hscope] at ha
      obtain ⟨c, hc, ha⟩ := List.mem_flatMap.1 ha
      have hbelow : Place.below .printed e.kind = .printed := by cases e.kind <;> rfl
      rw [hbelow] at ha
      have hsize : sizeOf c < sizeOf e := sizeOf_lt_of_mem_children hc
      exact place_of_mem_addedPhrases_printed ha
termination_by sizeOf e

/-! ### What the pass adds -/

/-- What is given no phrase is put together from what is left of its children. -/
theorem phrased_of_not_spells (hspells : ¬ e.Spells) (hscope : isScoped [e.kind] = false) :
    e.phrased s = e.rebuild (phrased s) := by
  by_cases hgroup : e.kind = .group
  · cases e with
    | group es =>
      cases hspelled : addedPhrase? es with
      | some p => exact absurd ⟨es, p, rfl, hspelled⟩ hspells
      | none => rw [phrased_group_of_none hspelled, rebuild_group]
    | _ => cases hgroup
  · exact phrased_eq_rebuild hgroup hscope

theorem terms_clause (s : ExactPhraseSettings) (p : String) (n : Nat) :
    (s.clause p n).terms = [.phrase p] := by
  have hnear : (proximity (.phrase p) s.slop).terms = [.phrase p] := by
    rw [terms_of_value?_eq_none rfl]
    simp [children, terms_of_value?_isSome (e := .phrase p) rfl]
  rw [clause_eq, terms_of_value?_eq_none rfl]
  simp only [children, List.flatMap_singleton, placed]
  cases s.field with
  | none => exact hnear
  | some name =>
    rw [terms_of_value?_eq_none rfl]
    simp [children, hnear]

/-- The terms of the answers for some trees, if there are answers for all. -/
theorem perm_flatMap_terms_filterMap {g : Expr → Option Expr} {added : Expr → List Expr}
    (h : ∀ c ∈ es, ∃ d, g c = some d ∧ d.terms.Perm (c.terms ++ added c)) :
    ((es.filterMap g).flatMap terms).Perm (es.flatMap terms ++ es.flatMap added) := by
  refine List.Perm.trans ?_ (List.flatMap_append_perm es terms added).symm
  induction es with
  | nil => rfl
  | cons c es ih =>
    obtain ⟨d, hd, hterms⟩ := h c List.mem_cons_self
    rw [List.filterMap_cons_some hd, List.flatMap_cons, List.flatMap_cons]
    exact hterms.append (ih fun c hc => h c (List.mem_cons_of_mem _ hc))

theorem terms_of_rebuild {g : Expr → Option Expr} (hterm : e.value? = none)
    (hd : e.rebuild g = some d) : d.terms = (e.children.filterMap g).flatMap terms := by
  have hkind : d.value?.isSome = e.value?.isSome := value?_isSome_congr (head_mapChildren hd).1
  rw [terms_of_value?_eq_none (by simpa [hterm] using hkind), children_of_rebuild hd]

/-- **What the pass adds.** Something is left of a filled tree, and its terms are those of the tree
and the phrases in the list. -/
theorem exists_phrased_terms (s : ExactPhraseSettings) (place : Place) {e : Expr} (he : e.Filled) :
    ∃ d, e.phrased s = some d ∧
      d.terms.Perm (e.terms ++ (e.addedPhrases place).map fun a => .phrase a.phrase) := by
  by_cases hspells : e.Spells
  · obtain ⟨es, p, rfl, hspelled⟩ := hspells
    refine ⟨_, phrased_group_of_some hspelled, ?_⟩
    simp [addedPhrases_group_of_some hspelled, terms_of_value?_eq_none (e := group _) rfl, children,
      terms_clause]
  cases hscope : isScoped [e.kind] with
  | true =>
    refine ⟨e, phrased_of_isScoped he hscope, ?_⟩
    simp [addedPhrases_of_isScoped hscope]
  | false =>
    rw [phrased_of_not_spells hspells hscope, addedPhrases_eq_flatMap hspells hscope]
    have hchild (c : Expr) (hc : c ∈ e.children) := by
      have hsize : sizeOf c < sizeOf e := sizeOf_lt_of_mem_children hc
      exact exists_phrased_terms s (place.below e.kind) (he.child hc)
    obtain ⟨d, hd⟩ := exists_rebuild he.root fun c hc => (hchild c hc).imp fun _ h => h.1
    refine ⟨d, hd, ?_⟩
    by_cases hvalue : e.value?.isSome = true
    · have hself : e.rebuild (phrased s) = some e := by
        rw [rebuild, mapChildren_of_value?_isSome hvalue]
      cases hself.symm.trans hd
      simp [children_of_value?_isSome hvalue]
    · have hterm : e.value? = none := by simpa using hvalue
      rw [terms_of_rebuild hterm hd, terms_of_value?_eq_none hterm, List.map_flatMap]
      exact perm_flatMap_terms_filterMap hchild
termination_by sizeOf e

/-- A tree that is given no phrase is left alone. -/
theorem phrased_eq_self {place : Place} {e : Expr} (he : e.Filled) (h : e.addedPhrases place = []) :
    e.phrased s = some e := by
  by_cases hspells : e.Spells
  · obtain ⟨es, p, rfl, hspelled⟩ := hspells
    rw [addedPhrases_group_of_some hspelled] at h
    cases h
  cases hscope : isScoped [e.kind] with
  | true => exact phrased_of_isScoped he hscope
  | false =>
    rw [addedPhrases_eq_flatMap hspells hscope] at h
    rw [phrased_of_not_spells hspells hscope]
    refine rebuild_eq_self he.root fun c hc => ?_
    have hsize : sizeOf c < sizeOf e := sizeOf_lt_of_mem_children hc
    exact phrased_eq_self (he.child hc) (List.flatMap_eq_nil_iff.1 h c hc)
termination_by sizeOf e

/-- Under all settings the same is left of a tree that is given no phrase. -/
theorem finished_congr (he : e.Filled) (h : e.addedPhrases place = []) (required : Bool) :
    e.finished s required = e.finished s' required := by
  rw [finished, finished, phrased_eq_self he h, phrased_eq_self he h]

/-! ### Where a phrase is in what is left -/

/-- Whether nodes of the kind are printed outside of fields, whatever they hold. -/
def isPrinted : Kind → Bool
  | .range | .fuzzy | .proximity => true
  | _ => false

/-- Whether phrases are added below nodes of the kind and are no parts of a text. -/
def isOpen : Kind → Bool
  | .group | .boost | .plus => true
  | _ => false

/-- Some range of the tree goes, since one of its bounds does. -/
def LosesRange (s : ExactPhraseSettings) (e : Expr) : Prop :=
  e.Reaches (fun _ => False) fun d => d.kind = .range ∧ d.finished s false = none

/-- A range of a node below is one of the tree. -/
theorem LosesRange.child (hc : c ∈ e.children) (h : c.LosesRange s) : e.LosesRange s :=
  .there id hc h

/-- Something with the property is in what is left of the tree. -/
def Leaves (s : ExactPhraseSettings) (required : Bool) (skips P : Expr → Prop) (e : Expr) : Prop :=
  ∃ d, e.finished s required = some d ∧ d.Reaches skips P

section Leaves

variable {skips P : Expr → Prop}

/-- Groups in groups lose their parentheses, and nothing else. -/
theorem reaches_spliceGroups {ds : List Expr} (hskips : ∀ d, isOpen d.kind = true → ¬ skips d)
    (hP : ∀ d, P d → d.kind ≠ .group) (hd : d ∈ ds) (h : d.Reaches skips P) :
    (group (spliceGroups ds)).Reaches skips P := by
  have hself : ¬ skips (group (spliceGroups ds)) := hskips _ rfl
  by_cases hgroup : d.kind = .group
  · cases h with
    | here _ h => exact absurd hgroup (hP d h)
    | there _ hc h =>
      refine .there hself (mem_spliceGroups.2 ⟨d, hd, ?_⟩) h
      cases d with
      | group => exact hc
      | _ => cases hgroup
  · refine .there hself (mem_spliceGroups.2 ⟨d, hd, ?_⟩) h
    rw [operands_of_ne_group hgroup]
    exact List.mem_singleton_self d

theorem Leaves.group (hskips : ∀ d, isOpen d.kind = true → ¬ skips d)
    (hP : ∀ d, P d → d.kind ≠ .group) (hspelled : addedPhrase? es = none) (hc : c ∈ es)
    (h : c.Leaves s required skips P) : (group es).Leaves s required skips P := by
  obtain ⟨d, hd, hreaches⟩ := h
  have hmem : d ∈ es.filterMap (finished s required) := List.mem_filterMap.2 ⟨c, hc, hd⟩
  refine ⟨_, ?_, reaches_spliceGroups hskips hP hmem hreaches⟩
  rw [finished_group_of_none hspelled]
  exact gather_of_ne_nil (List.ne_nil_of_mem hmem)

/-- A requirement of what is no group stays where it is. -/
theorem Leaves.signed (hskips : ∀ d, isOpen d.kind = true → ¬ skips d) (he : e.Filled)
    (hgroup : e.kind ≠ .group) (h : e.Leaves s false skips P) : e.Leaves s required skips P := by
  cases required with
  | false => exact h
  | true =>
    obtain ⟨d, hd, hreaches⟩ := h
    refine ⟨_, by rw [finished_true he hgroup, hd]; rfl, ?_⟩
    exact .there (hskips _ rfl) (List.mem_singleton_self d) hreaches

/-- What is left of a child by itself and below a requirement is in what is left of its node. -/
theorem Leaves.open (hskips : ∀ d, isOpen d.kind = true → ¬ skips d)
    (hP : ∀ d, P d → d.kind ≠ .group) (he : e.Filled) (hopen : isOpen e.kind = true)
    (hspells : ¬ e.Spells) (hc : c ∈ e.children) (h : ∀ required, c.Leaves s required skips P) :
    e.Leaves s required skips P := by
  cases e with
  | group es =>
    cases hspelled : addedPhrase? es with
    | some p => exact absurd ⟨es, p, rfl, hspelled⟩ hspells
    | none => exact .group hskips hP hspelled hc (h required)
  | plus inner =>
    cases List.mem_singleton.1 hc
    refine Leaves.signed hskips he Kind.noConfusion ?_
    rw [Leaves, finished_plus]
    exact h true
  | boost body score =>
    cases List.mem_singleton.1 hc
    refine Leaves.signed hskips he Kind.noConfusion ?_
    obtain ⟨d, hd, hreaches⟩ := h false
    refine ⟨_, by rw [finished_boost, hd]; rfl, ?_⟩
    split
    · exact hreaches
    · exact .there (hskips _ rfl) (List.mem_singleton_self d) hreaches
  | _ => cases hopen

end Leaves

theorem kind_tidyClauseOf (s : ExactPhraseSettings) (a : AddedPhrase) :
    (s.tidyClauseOf a).kind ≠ .group := by
  simp only [tidyClauseOf, tidyClause, placed]
  split <;> cases s.field <;> exact Kind.noConfusion

/-- The clause of its phrase is the last operand of a group. -/
theorem leaves_of_spelled (hspelled : addedPhrase? es = some p) (place : Place) :
    (group es).Leaves s required (fun _ => False)
      (· = s.tidyClauseOf ⟨place, p, es.length⟩) := by
  refine ⟨_, finished_group_of_some hspelled, ?_⟩
  refine reaches_spliceGroups (fun _ _ => id) (fun d hd => hd ▸ kind_tidyClauseOf s _)
    (List.mem_append_right _ (List.mem_singleton_self _)) ?_
  cases required with
  | false => exact .here id rfl
  | true => exact .there id (List.mem_singleton_self _) (.here id rfl)

/-- What phrases are added below is open or printed. -/
theorem isOpen_or_isPrinted (hscope : isScoped [e.kind] = false) (hc : c ∈ e.children) :
    isOpen e.kind = true ∨ isPrinted e.kind = true := by
  cases e with
  | group | plus | boost => exact .inl rfl
  | range | fuzzy | proximity => exact .inr rfl
  | field | minus | synonyms => cases hscope
  | word | phrase | regex | doi | url => cases hc

/-- A node that is printed with the clause of the phrase in it. -/
def Prints (s : ExactPhraseSettings) (a : AddedPhrase) (d : Expr) : Prop :=
  isPrinted d.kind = true ∧ d.Reaches (fun _ => False) (· = s.tidyClauseOf a)

/-- What is printed with phrases in it is put together from what is left of its children. -/
theorem finished_of_isPrinted (he : e.Filled) (hprinted : isPrinted e.kind = true)
    (hne : e.addedPhrases place ≠ []) : e.finished s false = e.rebuild (finished s false) := by
  cases e with
  | range => rw [finished_range, rebuild_range]
  | fuzzy => rw [finished_fuzzy, rebuild_fuzzy]
  | proximity body distance =>
    have hbody : body.kind ≠ .phrase := by
      intro hphrase
      cases body with
      | phrase => exact hne rfl
      | _ => cases hphrase
    rw [finished_proximity (he.child (List.mem_singleton_self _)) hbody, rebuild_proximity]
  | _ => cases hprinted

/-- The clause of a phrase stays below a node that is printed, unless the node goes. -/
theorem exists_prints_of_child (he : e.Filled) (hprinted : isPrinted e.kind = true)
    (hlost : ¬ e.LosesRange s) (hne : e.addedPhrases place ≠ []) (hc : c ∈ e.children)
    (h : c.Leaves s false (fun _ => False) (· = s.tidyClauseOf a)) :
    ∃ x, e.finished s false = some x ∧ Prints s a x := by
  obtain ⟨d, hd, hreaches⟩ := h
  have hrebuild := finished_of_isPrinted (s := s) he hprinted hne
  cases hx : e.finished s false with
  | none =>
    cases e with
    | range => exact absurd (.here id ⟨rfl, hx⟩) hlost
    | fuzzy | proximity =>
      cases List.mem_singleton.1 hc
      simp [hrebuild, hd] at hx
    | _ => cases hprinted
  | some x =>
    rw [hrebuild] at hx
    refine ⟨x, rfl, ?_, .there id (mem_children_of_rebuild hx hc hd) hreaches⟩
    rw [kind_of_rebuild hx]
    exact hprinted

/-- All phrases below a node that is printed are printed. -/
theorem occur?_of_isPrinted (hprinted : isPrinted e.kind = true) (ha : a ∈ e.addedPhrases place) :
    a.occur? = none := by
  have hplace : a.place = .printed := by
    cases e with
    | fuzzy | proximity => exact place_of_mem_addedPhrases_printed ha
    | range =>
      rcases List.mem_append.1 ha with ha | ha <;> exact place_of_mem_addedPhrases_printed ha
    | _ => cases hprinted
  exact occur?_eq_none_iff.2 hplace

theorem ne_group_of_isPrinted (h : isPrinted e.kind = true) : e.kind ≠ .group := by
  intro hgroup
  rw [hgroup] at h
  cases h

/-- **Where a phrase is in what is left of the tree**, if no range goes. -/
theorem leaves_or_losesRange (s : ExactPhraseSettings) {place : Place} {e : Expr} (he : e.Filled)
    (ha : a ∈ e.addedPhrases place) (required : Bool) :
    e.Leaves s required (fun _ => False) (· = s.tidyClauseOf a) ∨ e.LosesRange s := by
  have hskips (d : Expr) (_ : isOpen d.kind = true) : ¬ False := id
  by_cases hspells : e.Spells
  · obtain ⟨es, p, rfl, hspelled⟩ := hspells
    rw [addedPhrases_group_of_some hspelled, List.mem_singleton] at ha
    exact .inl (ha ▸ leaves_of_spelled hspelled place)
  cases hscope : isScoped [e.kind] with
  | true =>
    rw [addedPhrases_of_isScoped hscope] at ha
    cases ha
  | false =>
    by_cases hlost : e.LosesRange s
    · exact .inr hlost
    have hne : e.addedPhrases place ≠ [] := List.ne_nil_of_mem ha
    rw [addedPhrases_eq_flatMap hspells hscope] at ha
    obtain ⟨c, hc, ha⟩ := List.mem_flatMap.1 ha
    have hleaves (required : Bool) :
        c.Leaves s required (fun _ => False) (· = s.tidyClauseOf a) := by
      have hsize : sizeOf c < sizeOf e := sizeOf_lt_of_mem_children hc
      exact (leaves_or_losesRange s (he.child hc) ha required).resolve_right fun h =>
        hlost (h.child hc)
    refine .inl ?_
    rcases isOpen_or_isPrinted hscope hc with hopen | hprinted
    · exact .open hskips (fun d hd => hd ▸ kind_tidyClauseOf s a) he hopen hspells hc hleaves
    · refine Leaves.signed hskips he (ne_group_of_isPrinted hprinted) ?_
      obtain ⟨x, hx, -, hreaches⟩ := exists_prints_of_child he hprinted hlost hne hc (hleaves false)
      exact ⟨x, hx, hreaches⟩
termination_by sizeOf e

/-- **Where a phrase that is printed is in what is left of the tree**, if no range goes: in a node
that is printed, with groups, boosts and requirements around it at most. -/
theorem leaves_prints_or_losesRange (s : ExactPhraseSettings) {place : Place} {e : Expr}
    (he : e.Filled) (hplace : place ≠ .printed) (ha : a ∈ e.addedPhrases place)
    (hprinted : a.place = .printed) (required : Bool) :
    e.Leaves s required (fun d => isOpen d.kind = false ∧ isPrinted d.kind = false) (Prints s a) ∨
      e.LosesRange s := by
  have hskips (d : Expr) (hopen : isOpen d.kind = true) :
      ¬ (isOpen d.kind = false ∧ isPrinted d.kind = false) := by
    simp [hopen]
  have hP (d : Expr) (hd : Prints s a d) : d.kind ≠ .group := by
    intro h
    rw [Prints, h] at hd
    cases hd.1
  by_cases hspells : e.Spells
  · obtain ⟨es, p, rfl, hspelled⟩ := hspells
    rw [addedPhrases_group_of_some hspelled, List.mem_singleton] at ha
    cases ha
    exact absurd hprinted hplace
  cases hscope : isScoped [e.kind] with
  | true =>
    rw [addedPhrases_of_isScoped hscope] at ha
    cases ha
  | false =>
    by_cases hlost : e.LosesRange s
    · exact .inr hlost
    refine .inl ?_
    have hne : e.addedPhrases place ≠ [] := List.ne_nil_of_mem ha
    rw [addedPhrases_eq_flatMap hspells hscope] at ha
    obtain ⟨c, hc, ha⟩ := List.mem_flatMap.1 ha
    have hsize : sizeOf c < sizeOf e := sizeOf_lt_of_mem_children hc
    rcases isOpen_or_isPrinted hscope hc with hopen | hprints
    · refine .open hskips hP he hopen hspells hc fun required => ?_
      have hbelow : place.below e.kind ≠ .printed := by
        cases e with
        | group => exact hplace
        | plus | boost => simp [kind, Place.below, hplace]
        | _ => cases hopen
      exact (leaves_prints_or_losesRange s (he.child hc) hbelow ha hprinted
        required).resolve_right fun h => hlost (h.child hc)
    · refine Leaves.signed hskips he (ne_group_of_isPrinted hprints) ?_
      have hleaves := (leaves_or_losesRange s (he.child hc) ha false).resolve_right fun h =>
        hlost (h.child hc)
      obtain ⟨x, hx, hx'⟩ := exists_prints_of_child he hprints hlost hne hc hleaves
      exact ⟨x, hx, .here (by simp [hx'.1]) hx'⟩
termination_by sizeOf e

end Expr

end SearchQuery
