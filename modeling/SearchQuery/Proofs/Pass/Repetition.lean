import SearchQuery.Proofs.Pass.Conservation
import SearchQuery.Proofs.Pass.Finishing

/-!
# Passes that are done after one run

A pass puts nodes into a tree of the kinds that it looks for: words into groups of alternatives,
identifiers into fields, a phrase into the group that spells it. A second run looks at all of them,
also at those that the first one left alone once it had made them. For six of the passes it finds
nothing to do, in the tree and in the record.

## Why a second run finds nothing

A pass looks at a node with the kinds of the nodes around it, and these are the same in both runs.
So it is enough to look at one node. What replaces a node for good must be left alone where it
stands. A node that is kept must be kept as it is once the answers for its children are in their
places, which asks for something only where the transformation looks at children: at the word in a
field, at the words in a group. The answer for such a child may be another tree, but it is a word
only if the child is this word.

## The state

The trees and the record that the first run leaves go into the second one, so what is left alone has
to be left alone in the state at the end. A pass may look at something of the state as long as it
does not change it, as the language of the query for corrections.

## Main definitions

* `Pass.Rests` — a tree that the pass leaves alone where it stands
* `Pass.Settles` — what a pass has to do at one node so that it has nothing left to do

## Main results

* `Pass.Settles.rests` — whatever the pass leaves of a tree, it leaves alone afterwards
* `runPasses_twice` — the six passes
-/

namespace SearchQuery

open SearchQuery.Expr

variable {σ α : Type} {view : σ → α} {a : α}

namespace Pass

variable {p : Pass σ} {parents : List Kind} {e e' d : Expr} {s t : σ}

/-! ### Trees that are left alone -/

/-- The pass leaves the tree alone where it stands, and the state too if it shows `a`. -/
def Rests (p : Pass σ) (view : σ → α) (a : α) (parents : List Kind) (e : Expr) : Prop :=
  ∀ s, view s = a → p.parentsFirst parents e s = (some e, s)

theorem rests_of_ignores (h : p.ignores e.kind = true) : p.Rests view a parents e := fun s _ => by
  rw [parentsFirst, if_pos h]

theorem rests_of_final (h : ∀ s, view s = a → p.transform e parents s = (.final e, s)) :
    p.Rests view a parents e := by
  by_cases hignores : p.ignores e.kind = true
  · exact rests_of_ignores hignores
  · intro s hs
    have hfinal := h s hs
    rw [parentsFirst_eq_of_final (by simpa using hignores) (congrArg Prod.fst hfinal), hfinal]

theorem rests_of_keep (he : e.HasOperands)
    (h : ∀ s, view s = a → p.transform e parents s = (.keep e, s))
    (hchildren : ∀ c ∈ e.children, p.Rests view a (parents ++ [e.kind]) c) :
    p.Rests view a parents e := by
  by_cases hignores : p.ignores e.kind = true
  · exact rests_of_ignores hignores
  · intro s hs
    rw [parentsFirst_of_keep (by simpa using hignores) (h s hs),
      mapChildren_eq_rebuild fun c hc => hchildren c hc s hs, rebuild_eq_self he fun _ _ => rfl]

/-- A term that is kept is left alone. -/
theorem rests_of_value?_isSome (he : e.value?.isSome = true)
    (h : ∀ s, view s = a → p.transform e parents s = (.keep e, s)) : p.Rests view a parents e := by
  have hoperands : e.HasOperands := by
    cases e with
    | group | synonyms => cases he
    | _ => trivial
  refine rests_of_keep hoperands h fun c hc => ?_
  rw [children_of_value?_isSome he] at hc
  cases hc

/-! ### One run -/

/-- Nothing is left to do at a node after the pass has looked at it, if nothing is left to do at its
children. -/
structure Settles (view : σ → α) (p : Pass σ) : Prop where
  /-- A node is looked at before its children. -/
  order : p.order = .parentsFirst
  /-- What the pass looks at in the state stays. -/
  keepsView : p.transform.KeepsView view
  /-- Groups have operands. -/
  filled : p.transform.Preserves (FilledIn fun _ => True)
  /-- What replaces a node for good is left alone. -/
  final : ∀ ⦃e d parents s⦄, e.Filled → (p.transform e parents s).1 = .final d →
    p.Rests view (view s) parents d
  /-- A node that is kept is kept as it is with the answers for its children. -/
  keep : ∀ ⦃e d d' parents s t⦄, e.Filled → p.transform e parents s = (.keep d, t) →
    (d.mapChildren (fun c _ s => p.parentsFirst (parents ++ [d.kind]) c s) t).1 = some d' →
    ∀ u, view u = view s → p.transform d' parents u = (.keep d', u)

/-- **Whatever the pass leaves of a tree, it leaves alone afterwards.** -/
theorem Settles.rests (hp : p.Settles view) {parents : List Kind} {e e' : Expr} {s : σ}
    (he : e.Filled) (h : (p.parentsFirst parents e s).1 = some e') :
    p.Rests view (view s) parents e' := by
  by_cases hignores : p.ignores e.kind = true
  · rw [parentsFirst, if_pos hignores] at h
    cases h
    exact rests_of_ignores hignores
  have hkinds : p.ignores e.kind = false := by simpa using hignores
  cases houtcome : (p.transform e parents s).1 with
  | remove =>
    rw [parentsFirst_of_remove hkinds (Prod.ext houtcome rfl)] at h
    cases h
  | final d =>
    rw [parentsFirst_of_final hkinds houtcome] at h
    cases h
    exact hp.final he houtcome
  | keep d =>
    have hkeep : p.transform e parents s = (.keep d, (p.transform e parents s).2) :=
      Prod.ext houtcome rfl
    have hd : d.Filled := (hp.filled he.filledIn (by rw [houtcome]; rfl)).filled
    rw [parentsFirst_of_keep hkinds hkeep] at h
    obtain ⟨hoperands, hchildren⟩ := mapChildren_spec_of_state (I := fun t => view t = view s)
      (hp.keepsView e parents s) (fun c _ t ht => (view_parentsFirst hp.keepsView _ c t).trans ht) h
    refine rests_of_keep hoperands (hp.keep he hkeep h) fun d' hd' => ?_
    obtain ⟨c, hc, t, ht, hanswer⟩ := hchildren d' hd'
    have hrank : p.rank (parents ++ [d.kind]) c < p.rank parents e :=
      p.descends e parents s d houtcome c hc
    have hrests : p.Rests view (view t) (parents ++ [d.kind]) d' := hp.rests (hd.child hc) hanswer
    rwa [ht, ← (head_mapChildren h).1] at hrests
termination_by p.rank parents e

/-- A second run changes neither the tree nor the record, and there is none without a tree. -/
theorem Settles.runPasses_eq {p : Pass Context} {view : Context → α} (hp : p.Settles view)
    (he : e.Filled) (c : Context) : runPasses [p, p] (some e) c = runPasses [p] (some e) c := by
  rw [runPasses_cons, runPasses_cons]
  have horder (e : Expr) (c : Context) : p.run e c = p.parentsFirst [] e c := by
    rw [run, hp.order]
  cases hrun : (p.run e c).1 with
  | none => rfl
  | some e' =>
    have hview : view (p.run e c).2 = view c := by
      rw [horder]
      exact view_parentsFirst hp.keepsView [] e c
    have hrests : p.Rests view (view c) [] e' := hp.rests he (by rw [← horder, hrun])
    rw [runPasses_cons, horder, hrests _ hview]

end Pass

/-! ### Nodes that are kept as they are -/

/-- A node that is kept in some state is kept as it is in every state. -/
def Transform.KeepsSelf (f : Transform σ) : Prop :=
  ∀ ⦃e d parents s⦄, (f e parents s).1 = .keep d → ∀ t, f e parents t = (.keep e, t)

/-- The replacement of a node has its kind, and a term is its own replacement. -/
def Transform.SparesTerms (f : Transform σ) (parents : List Kind) : Prop :=
  ∀ ⦃e d s⦄, (f e parents s).1.tree? = some d →
    d.kind = e.kind ∧ (e.value?.isSome = true → d = e)

namespace Pass

variable {p : Pass σ} {parents : List Kind} {e e' d : Expr} {s t : σ}

/-- The answer for a node has its kind, and a term is its own answer. -/
theorem spares_of_parentsFirst (hp : p.transform.SparesTerms parents)
    (h : (p.parentsFirst parents e s).1 = some e') :
    e'.kind = e.kind ∧ (e.value?.isSome = true → e' = e) := by
  rw [parentsFirst] at h
  split at h
  · cases h
    exact ⟨rfl, fun _ => rfl⟩
  split at h
  · cases h
  · rename_i hfinal
    cases h
    exact hp (by rw [hfinal]; rfl)
  · rename_i d t hkeep
    obtain ⟨hkind, hterm⟩ := hp (d := d) (by rw [hkeep]; rfl)
    refine ⟨(head_mapChildren h).1.trans hkind, fun hvalue => ?_⟩
    obtain rfl := hterm hvalue
    rw [mapChildren_of_value?_isSome hvalue] at h
    exact (Option.some.inj h).symm

/-- The answer for a node is a term only if it is the node. -/
theorem eq_of_parentsFirst_of_isSome (hp : p.transform.SparesTerms parents)
    (h : (p.parentsFirst parents e s).1 = some e') (he' : e'.value?.isSome = true) : e' = e := by
  obtain ⟨hkind, hterm⟩ := spares_of_parentsFirst hp h
  exact hterm (by rwa [← value?_isSome_congr hkind])

/-- A pass that keeps nodes as they are, in whatever state, settles if it keeps them also when their
children have been replaced. -/
theorem settles_of_keepsSelf (horder : p.order = .parentsFirst) (hself : p.transform.KeepsSelf)
    (hfilled : p.transform.Preserves (FilledIn fun _ => True))
    (hfinal : ∀ ⦃e d parents s⦄, e.Filled → (p.transform e parents s).1 = .final d →
      p.Rests (fun _ => ()) () parents d)
    (hnode : ∀ ⦃e e' parents s⦄, e.Filled → e.value? = none →
      p.transform e parents s = (.keep e, s) →
      (e.mapChildren (fun c _ s => p.parentsFirst (parents ++ [e.kind]) c s) s).1 = some e' →
      (p.transform e' parents s).1 = .keep e') :
    p.Settles fun _ => () where
  order := horder
  keepsView _ _ _ := rfl
  filled := hfilled
  final := hfinal
  keep e d d' parents s t he hkeep h u _ := by
    have hnode' := hself (congrArg Prod.fst hkeep) s
    cases hkeep.symm.trans hnode'
    cases hvalue : e.value? with
    | some =>
      rw [mapChildren_of_value?_isSome (by simp [hvalue])] at h
      cases h
      exact hself (congrArg Prod.fst hkeep) u
    | none => exact hself (hnode he hvalue hkeep h) u

/-- Such a pass settles in particular if it keeps every node that is no term. -/
theorem settles_of_terms (horder : p.order = .parentsFirst) (hself : p.transform.KeepsSelf)
    (hfilled : p.transform.Preserves (FilledIn fun _ => True))
    (hfinal : ∀ ⦃e d parents s⦄, e.Filled → (p.transform e parents s).1 = .final d →
      p.Rests (fun _ => ()) () parents d)
    (hnode : ∀ e parents s, e.value? = none → (p.transform e parents s).1 = .keep e) :
    p.Settles fun _ => () :=
  settles_of_keepsSelf horder hself hfilled hfinal fun e e' parents s _ hvalue _ h =>
    hnode e' parents s (by simpa [hvalue] using value?_isSome_congr (head_mapChildren h).1)

end Pass

/-! ### Nodes that are taken out -/

theorem SortSettings.keepsSelf (s : SortSettings) : s.transform.KeepsSelf := by
  intro e d parents c h c'
  obtain ⟨field, -, hstep⟩ | ⟨hnone, -⟩ := s.transform_cases e parents c
  · rw [hstep] at h
    cases h
  obtain ⟨field, hfield, -⟩ | ⟨-, hstep⟩ := s.transform_cases e parents c'
  · cases hnone.symm.trans hfield
  · exact hstep

theorem SortSettings.sparesTerms (s : SortSettings) (parents : List Kind) :
    s.transform.SparesTerms parents := by
  intro e d c h
  obtain ⟨field, -, hstep⟩ | ⟨-, hstep⟩ := s.transform_cases e parents c <;>
    rw [hstep] at h <;> cases h
  exact ⟨rfl, fun _ => rfl⟩

/-- A field does not become a directive when its body has been looked at, for a word in it was there
before. -/
theorem SortSettings.directive?_of_mapChildren {s : SortSettings} {e e' : Expr}
    {parents : List Kind} {c : Context} (he : s.directive? e = none)
    (h : (e.mapChildren (fun d _ c => (Pass.sorting s).parentsFirst parents d c) c).1 = some e') :
    s.directive? e' = none := by
  obtain ⟨hkind, hname⟩ := head_mapChildren h
  cases e' with
  | field name body' =>
    cases body' with
    | word value =>
      obtain ⟨body, hbody, t, hanswer⟩ := (mapChildren_spec h).2 _ List.mem_cons_self
      cases Pass.eq_of_parentsFirst_of_isSome (s.sparesTerms parents) hanswer rfl
      cases e with
      | field =>
        cases List.mem_singleton.1 hbody
        cases hname
        exact he
      | _ => cases hkind
    | _ => rfl
  | _ => rfl

theorem SortSettings.settles (s : SortSettings) : (Pass.sorting s).Settles fun _ => () := by
  refine Pass.settles_of_keepsSelf rfl s.keepsSelf (s.preserves _) (fun e d parents c _ h => ?_)
    fun e e' parents c _ _ hkeep h => ?_
  · have hfinal : (s.transform e parents c).1 = .final d := h
    obtain ⟨field, -, hstep⟩ | ⟨-, hstep⟩ := s.transform_cases e parents c <;>
      rw [hstep] at hfinal <;> cases hfinal
  · have htransform : s.transform e parents c = (.keep e, c) := hkeep
    obtain ⟨field, -, hstep⟩ | ⟨hnone, -⟩ := s.transform_cases e parents c
    · cases htransform.symm.trans hstep
    have hnone' : s.directive? e' = none := directive?_of_mapChildren hnone h
    show (s.transform e' parents c).1 = _
    obtain ⟨field, hfield, -⟩ | ⟨-, hstep⟩ := s.transform_cases e' parents c
    · cases hnone'.symm.trans hfield
    · rw [hstep]

theorem MarkerSettings.keepsSelf (s : MarkerSettings) : s.transform.KeepsSelf := by
  intro e d parents c h c'
  obtain ⟨value, -, -, hstep⟩ | ⟨hnone, -⟩ := s.transform_cases e parents c
  · rw [hstep] at h
    cases h
  obtain ⟨value, hvalue, hmarker, -⟩ | ⟨-, hstep⟩ := s.transform_cases e parents c'
  · cases (hnone value hvalue).symm.trans hmarker
  · exact hstep

theorem MarkerSettings.settles (s : MarkerSettings) : (Pass.markers s).Settles fun _ => () := by
  refine Pass.settles_of_terms rfl s.keepsSelf (s.preserves _) (fun e d parents c _ h => ?_)
    fun e parents c hvalue => ?_
  · have hfinal : (s.transform e parents c).1 = .final d := h
    obtain ⟨value, -, -, hstep⟩ | ⟨-, hstep⟩ := s.transform_cases e parents c <;>
      rw [hstep] at hfinal <;> cases hfinal
  · cases e with
    | word => cases hvalue
    | _ => rfl

/-! ### Identifiers -/

namespace IdentifierSettings

variable {s : IdentifierSettings} {parents : List Kind}

theorem keepsSelf (s : IdentifierSettings) : s.transform.KeepsSelf := by
  intro e d parents c h c'
  obtain ⟨found, -, -, hstep⟩ | ⟨value, d', -, -, hstep⟩ | ⟨hnone, hword, -⟩ :=
    s.transform_cases e parents c
  · rw [hstep] at h
    cases h
  · rw [hstep] at h
    cases h
  obtain ⟨found, hfound, hfree, -⟩ | ⟨value, d', hvalue, hsearch, -⟩ | ⟨-, -, hstep⟩ :=
    s.transform_cases e parents c'
  · cases (hnone hfree).symm.trans hfound
  · cases (hword value hvalue).symm.trans hsearch
  · exact hstep

/-- The search for an identifier is left alone, for the identifier stands in a field. -/
theorem rests_search (found : String) :
    (Pass.identifiers s).Rests (fun _ => ()) () parents (s.search found) := by
  have hscoped (kinds : List Kind) (c : Context) :
      s.transform (.doi found) (kinds ++ [.field]) c = (.keep (.doi found), c) := by
    simp [transform, identifier?, isFree]
  refine Pass.rests_of_keep trivial (fun _ _ => rfl) fun d hd => ?_
  cases List.mem_singleton.1 hd
  refine Pass.rests_of_keep trivial (fun _ _ => rfl) fun d hd => ?_
  cases List.mem_singleton.1 hd
  exact Pass.rests_of_value?_isSome rfl fun c _ => hscoped _ c

/-- The search for the identifiers with a beginning is left alone, for it holds no word. -/
theorem rests_patternSearch (beginning : List Char) :
    (Pass.identifiers s).Rests (fun _ => ()) () parents (s.patternSearch beginning) := by
  refine Pass.rests_of_keep trivial (fun _ _ => rfl) fun d hd => ?_
  cases List.mem_singleton.1 hd
  exact Pass.rests_of_value?_isSome rfl fun _ _ => rfl

theorem rests_of_wildcard? {word : String} {d : Expr} (h : s.wildcard? word parents = some d) :
    (Pass.identifiers s).Rests (fun _ => ()) () parents d := by
  have hplus (beginning : List Char) :
      (Pass.identifiers s).Rests (fun _ => ()) () parents (plus (s.patternSearch beginning)) := by
    refine Pass.rests_of_keep trivial (fun _ _ => rfl) fun d hd => ?_
    cases List.mem_singleton.1 hd
    exact rests_patternSearch beginning
  obtain ⟨beginning, -, rfl | rfl⟩ := exists_of_wildcard? h
  · exact rests_patternSearch beginning
  · exact hplus beginning

theorem settles (s : IdentifierSettings) : (Pass.identifiers s).Settles fun _ => () := by
  refine Pass.settles_of_terms rfl s.keepsSelf (preserves_filledIn trivial)
    (fun e d parents c _ h => ?_) fun e parents c hvalue => ?_
  · have hfinal : (s.transform e parents c).1 = .final d := h
    obtain ⟨found, -, -, hstep⟩ | ⟨value, d', -, hsearch, hstep⟩ | ⟨-, -, hstep⟩ :=
      s.transform_cases e parents c <;> rw [hstep] at hfinal <;> cases hfinal
    · exact rests_search found
    · exact rests_of_wildcard? hsearch
  · cases e with
    | word | doi | url => cases hvalue
    | _ => rfl

end IdentifierSettings

/-! ### Synonyms -/

namespace SynonymSets

theorem keepsSelf (s : SynonymSets) : s.transform.KeepsSelf := by
  intro e d parents c h c'
  obtain ⟨group, -, -, hstep⟩ | ⟨hnone, -⟩ := s.transform_cases e parents c
  · rw [hstep] at h
    cases h
  obtain ⟨group, hfree, hgroup, -⟩ | ⟨-, hstep⟩ := s.transform_cases e parents c'
  · cases (hnone hfree).symm.trans hgroup
  · exact hstep

/-- The phrases of a set are left alone, for they stand in a group of alternatives. -/
theorem rests_of_expand? {s : SynonymSets} {term : String} {d : Expr} {parents : List Kind}
    (h : s.expand? term = some d) : (Pass.synonyms s).Rests (fun _ => ()) () parents d := by
  have hfilled : d.FilledIn fun _ => True := filledIn_of_expand? h
  obtain ⟨set, -, rfl⟩ := Option.map_eq_some_iff.1 h
  have hscoped (e : Expr) (c : Context) :
      s.transform e (parents ++ [.synonyms]) c = (.keep e, c) := by
    simp [transform, isFree]
  refine Pass.rests_of_keep hfilled.filled.root (fun c _ => ?_) fun d hd => ?_
  · simp [Pass.synonyms, Pass.ofTransform, transform, alternatives?]
  · obtain ⟨value, -, rfl⟩ := List.mem_map.1 hd
    exact Pass.rests_of_value?_isSome rfl fun c _ => hscoped _ c

theorem settles (s : SynonymSets) : (Pass.synonyms s).Settles fun _ => () := by
  refine Pass.settles_of_terms rfl s.keepsSelf s.preserves_filledIn
    (fun e d parents c _ h => ?_) fun e parents c hvalue => ?_
  · have hfinal : (s.transform e parents c).1 = .final d := h
    obtain ⟨group, -, hgroup, hstep⟩ | ⟨-, hstep⟩ := s.transform_cases e parents c <;>
      rw [hstep] at hfinal <;> cases hfinal
    cases e with
    | word | phrase => exact rests_of_expand? hgroup
    | _ => cases hgroup
  · have hnone : s.alternatives? e = none := by
      cases e with
      | word | phrase => cases hvalue
      | _ => rfl
    simp [Pass.synonyms, Pass.ofTransform, transform, hnone]

end SynonymSets

/-! ### Corrections -/

/-- A node that is no word is left as it is. -/
theorem Expr.corrected_of_ne_word {e : Expr} (h : e.kind ≠ .word) (correct? : Corrector) :
    e.corrected correct? = e := by
  cases e with
  | word => exact absurd rfl h
  | _ => rfl

/-- A pair is no word any more, and a word that is not paired will not be. -/
theorem Expr.corrected_corrected (correct? : Corrector) (e : Expr) :
    (e.corrected correct?).corrected correct? = e.corrected correct? := by
  obtain h | ⟨value, better, -, -, -, h⟩ := e.corrected_cases correct?
  · rw [h, h]
  · rw [h, corrected_of_ne_word Kind.noConfusion]

namespace SpellingSettings

variable {s : SpellingSettings} {correct? : Corrector}

theorem applies_congr {c c' : Context} (h : c'.language = c.language) :
    s.applies c' = s.applies c := by
  rw [applies, applies, h]

/-- Below the root no word is replaced where it stands. -/
theorem sparesTerms (s : SpellingSettings) (correct? : Corrector) {parents : List Kind}
    (hparents : parents ≠ []) : (s.transform correct?).SparesTerms parents := by
  intro e d c h
  obtain ⟨-, hstep⟩ | ⟨-, ⟨operands, rfl, hstep⟩ | ⟨value, -, hroot, -⟩ | ⟨-, -, hstep⟩⟩ :=
    s.transform_cases correct? e parents c
  · rw [hstep] at h
    cases h
    exact ⟨rfl, fun _ => rfl⟩
  · rw [hstep] at h
    cases h
    exact ⟨rfl, fun hvalue => by cases hvalue⟩
  · exact absurd hroot hparents
  · rw [hstep] at h
    cases h
    exact ⟨rfl, fun _ => rfl⟩

theorem transform_of_not_applies {c : Context} (h : s.applies c = false) (e : Expr)
    (parents : List Kind) : s.transform correct? e parents c = (.final e, c) := by
  simp [transform, h]

theorem transform_of_kind (correct? : Corrector) {c : Context} (happlies : s.applies c = true)
    {e : Expr} (hgroup : e.kind ≠ .group) (hword : e.kind ≠ .word) (parents : List Kind) :
    s.transform correct? e parents c = (.keep e, c) := by
  cases e with
  | group => exact absurd rfl hgroup
  | word => exact absurd rfl hword
  | _ => exact if_pos happlies

/-- A word at the root is left alone once it has been looked at: without a correction it is replaced
by itself, and a pair has its words below the root. -/
theorem rests_corrected (value : String) {c : Context} (happlies : s.applies c = true) :
    (Pass.spelling s correct?).Rests Context.language c.language []
      ((word value).corrected correct?) := by
  have hpaired {c' : Context} (hc' : c'.language = c.language) : s.applies c' = true :=
    (applies_congr hc').trans happlies
  obtain h | ⟨_, better, ⟨⟩, -, -, h⟩ := (word value).corrected_cases correct?
  · rw [h]
    refine Pass.rests_of_final fun c' hc' => ?_
    exact (if_pos (hpaired hc')).trans (congrArg (fun e => (Outcome.final e, c')) h)
  · rw [h]
    refine Pass.rests_of_keep (List.cons_ne_nil _ _) (fun c' hc' => ?_) fun d hd => ?_
    · exact transform_of_kind correct? (hpaired hc') Kind.noConfusion Kind.noConfusion []
    · have hterm : ∃ w, d = word w := by
        simp only [children, List.mem_cons, List.not_mem_nil, or_false] at hd
        rcases hd with rfl | rfl <;> exact ⟨_, rfl⟩
      obtain ⟨w, rfl⟩ := hterm
      exact Pass.rests_of_value?_isSome rfl fun c' hc' => if_pos (hpaired hc')

/-- Of the operands of a group that has been looked at none is corrected. -/
theorem map_corrected_of_mapChildren {es es' : List Expr} {parents : List Kind} {c : Context}
    (h : ((group (es.map (corrected correct?))).mapChildren (fun d _ c =>
      (Pass.spelling s correct?).parentsFirst (parents ++ [.group]) d c) c).1 = some (group es')) :
    es'.map (corrected correct?) = es' := by
  refine (List.map_congr_left fun d' hd' => ?_).trans (List.map_id es')
  by_cases hword : d'.kind = .word
  · -- a word is its own answer, and it has been corrected before it was looked at
    obtain ⟨d, hd, t, hanswer⟩ := (mapChildren_spec h).2 d' hd'
    obtain rfl : d' = d := Pass.eq_of_parentsFirst_of_isSome (s.sparesTerms correct? (by simp))
      hanswer (value?_isSome_congr (e := word "") hword)
    obtain ⟨o, -, rfl⟩ := List.mem_map.1 hd
    exact corrected_corrected correct? o
  · exact corrected_of_ne_word hword correct?

theorem settles (s : SpellingSettings) (correct? : Corrector) :
    (Pass.spelling s correct?).Settles Context.language where
  order := rfl
  keepsView := s.keepsView correct?
  filled := s.preserves_filledIn correct?
  final e d parents c he h := by
    have hfinal : (s.transform correct? e parents c).1 = .final d := h
    obtain ⟨hnot, hstep⟩ | ⟨happlies, ⟨_, rfl, hstep⟩ | ⟨value, rfl, rfl, hstep⟩ | ⟨-, -, hstep⟩⟩ :=
      s.transform_cases correct? e parents c <;> rw [hstep] at hfinal <;> cases hfinal
    · refine Pass.rests_of_final fun c' hc' => ?_
      exact transform_of_not_applies ((applies_congr hc').trans hnot) e parents
    · exact rests_corrected value happlies
  keep e d d' parents c c' he hkeep h u hu := by
    have htransform : s.transform correct? e parents c = (.keep d, c') := hkeep
    have hkind : d'.kind = d.kind := (head_mapChildren h).1
    show s.transform correct? d' parents u = _
    obtain ⟨-, hstep⟩ | ⟨happlies, ⟨es, rfl, hstep⟩ | ⟨_, -, -, hstep⟩ | ⟨hgroup, hroot, hstep⟩⟩ :=
      s.transform_cases correct? e parents c <;> cases htransform.symm.trans hstep
    · have happlies' : s.applies u = true := (applies_congr hu).trans happlies
      cases d' with
      | group es' =>
        have hes' : es'.map (corrected correct?) = es' := map_corrected_of_mapChildren h
        simp [transform, happlies', hes']
      | _ => cases hkind
    · obtain ⟨hnot, -⟩ | ⟨-, ⟨_, rfl, -⟩ | ⟨_, rfl, hroot', -⟩ | ⟨-, -, hstep'⟩⟩ :=
        s.transform_cases correct? d' parents u
      · cases ((applies_congr hu).trans happlies).symm.trans hnot
      · exact absurd hkind.symm hgroup
      · exact absurd hroot' (hroot hkind.symm)
      · exact hstep'

end SpellingSettings

/-! ### Phrases -/

namespace ExactPhraseSettings

variable {s : ExactPhraseSettings} {parents : List Kind}

theorem keepsSelf (s : ExactPhraseSettings) : s.transform.KeepsSelf := by
  intro e d parents c h c'
  have hstate : s.transform e parents c' = ((s.transform e parents c).1, c') :=
    s.isStateless e parents c' c
  obtain ⟨operands, phrase, -, -, -, -, hstep⟩ | ⟨-, hstep⟩ := s.transform_cases e parents c
  · rw [hstep] at h
    cases h
  · rw [hstate, hstep]

theorem sparesTerms (s : ExactPhraseSettings) (parents : List Kind) :
    s.transform.SparesTerms parents := by
  intro e d c h
  obtain ⟨operands, phrase, rfl, -, -, -, hstep⟩ | ⟨-, hstep⟩ := s.transform_cases e parents c <;>
    rw [hstep] at h <;> cases h
  · exact ⟨rfl, fun hvalue => by cases hvalue⟩
  · exact ⟨rfl, fun _ => rfl⟩

/-- Words and groups of alternatives are left alone wherever they stand. -/
theorem rests_of_kind {e : Expr} (he : e.Filled) (h : e.kind = .word ∨ e.kind = .synonyms) :
    (Pass.exactPhrase s).Rests (fun _ => ()) () parents e := by
  have hkeep (c : Context) : s.transform e parents c = (.keep e, c) :=
    transform_of_ne_group (by rcases h with h | h <;> rw [h] <;> exact Kind.noConfusion) parents c
  rcases h with h | h
  · exact Pass.rests_of_value?_isSome (value?_isSome_congr (e := word "") h) fun c _ => hkeep c
  · refine Pass.rests_of_keep he.root (fun c _ => hkeep c) fun d hd c _ => ?_
    exact parentsFirst_of_isScoped (he.child hd) (by simp [isScoped_append, h])

theorem kind_of_plainText? {e : Expr} (h : e.plainText?.isSome = true) :
    e.kind = .word ∨ e.kind = .synonyms := by
  cases e with
  | word => exact .inl rfl
  | synonyms => exact .inr rfl
  | _ => cases h

/-- What an operand stands for is not changed. -/
theorem plainText?_of_parentsFirst {e e' : Expr} {c : Context} (he : e.Filled)
    (h : ((Pass.exactPhrase s).parentsFirst parents e c).1 = some e') :
    e'.plainText? = e.plainText? := by
  by_cases hkind : e.kind = .word ∨ e.kind = .synonyms
  · rw [rests_of_kind he hkind c rfl] at h
    cases h
    rfl
  · have hkind' : e'.kind = e.kind := (Pass.spares_of_parentsFirst (s.sparesTerms parents) h).1
    have hnone {d : Expr} (hd : d.kind = e.kind) : d.plainText? = none := by
      by_contra hsome
      exact hkind (hd ▸ kind_of_plainText? (Option.isSome_iff_ne_none.2 hsome))
    rw [hnone hkind', hnone rfl]

theorem isSome_plainText?_of_mem {es : List Expr} {phrase : String}
    (h : addedPhrase? es = some phrase) {e : Expr} (he : e ∈ es) : e.plainText?.isSome = true := by
  obtain ⟨-, texts, htexts, -⟩ := addedPhrase?_eq_some_iff.1 h
  have hmem : e.plainText? ∈ texts.map some := htexts ▸ List.mem_map_of_mem he
  obtain ⟨text, -, htext⟩ := List.mem_map.1 hmem
  simp [← htext]

theorem addedPhrase?_congr {es es' : List Expr}
    (h : es'.map plainText? = es.map plainText?) : addedPhrase? es' = addedPhrase? es := by
  have hlength : es'.length = es.length := by simpa using congrArg List.length h
  refine Option.ext fun phrase => ?_
  rw [addedPhrase?_eq_some_iff, addedPhrase?_eq_some_iff, h, hlength]

/-- The search for a phrase is left alone, for it has no group. -/
theorem rests_clause (phrase : String) (count : Nat) :
    (Pass.exactPhrase s).Rests (fun _ => ()) () parents (s.clause phrase count) := by
  have hnodes : (s.clause phrase count).All fun d => d.HasOperands ∧ d.kind ≠ .group := by
    rw [clause_eq, placed]
    cases s.field <;> simp [HasOperands, kind]
  exact fun c _ => Pass.parentsFirst_eq_self
    (hnodes.imp fun d hd => ⟨hd.1, transform_of_ne_group hd.2⟩) parents c

/-- A group with the phrase of its operands spells none, for the search for a phrase stands for no
text, and its operands are left alone. -/
theorem rests_of_addedPhrase? {es : List Expr} (he : (group es).Filled) {phrase : String}
    (h : addedPhrase? es = some phrase) :
    (Pass.exactPhrase s).Rests (fun _ => ()) () parents
      (group (es ++ [s.clause phrase es.length])) := by
  have hnone : addedPhrase? (es ++ [s.clause phrase es.length]) = none := by
    by_contra hsome
    obtain ⟨phrase', hphrase'⟩ := Option.ne_none_iff_exists'.1 hsome
    have hclause := isSome_plainText?_of_mem hphrase' (List.mem_append_right _ List.mem_cons_self)
    rw [clause_eq] at hclause
    cases hclause
  refine Pass.rests_of_keep (by simp [HasOperands]) (fun c _ => ?_) fun o ho => ?_
  · show s.transform (group (es ++ [s.clause phrase es.length])) parents c = _
    cases hscoped : isScoped parents with
    | true => rw [transform_of_isScoped hscoped]
    | false => rw [transform_group _ hscoped, hnone]
  · rcases List.mem_append.1 ho with ho | ho
    · exact rests_of_kind (he.child ho) (kind_of_plainText? (isSome_plainText?_of_mem h ho))
    · cases List.mem_singleton.1 ho
      exact rests_clause phrase es.length

/-- No operand is lost, and each stands for what it stood for. -/
theorem map_plainText?_of_mapChildren {es es' : List Expr} {c : Context} (he : (group es).Filled)
    (h : ((group es).mapChildren
      (fun d _ c => (Pass.exactPhrase s).parentsFirst (parents ++ [.group]) d c) c).1 =
        some (group es')) : es'.map plainText? = es.map plainText? := by
  have hconserves : s.transform.Conserves fun _ : Expr => () := by
    intro e kinds c
    obtain ⟨operands, phrase, rfl, -, -, -, hstep⟩ | ⟨-, hstep⟩ := s.transform_cases e kinds c <;>
      rw [hstep]
    · exact ⟨_, rfl, rfl⟩
    · exact ⟨_, rfl, rfl⟩
  have hanswer (d : Expr) (hd : d ∈ es) :
      ∃ d', (Pass.exactPhrase s).parentsFirst (parents ++ [.group]) d c = (some d', c) ∧
        d'.plainText? = d.plainText? := by
    obtain ⟨d', hd', -, -⟩ := Pass.exists_parentsFirst_of_conserves (p := .exactPhrase s)
      (fun _ _ _ _ _ => rfl) hconserves (preserves_filledIn fun _ _ => trivial)
      s.isStateless.keepsView (he.child hd) (parents ++ [.group]) c
    exact ⟨d', hd', plainText?_of_parentsFirst (he.child hd) (congrArg Prod.fst hd')⟩
  have hrebuild : (group es).rebuild
      (fun d => ((Pass.exactPhrase s).parentsFirst (parents ++ [.group]) d c).1) =
        some (group es') := by
    rw [← h, mapChildren_eq_rebuild]
    exact fun d _ => Pass.parentsFirst_eq s.isStateless.keepsView
  exact map_children_of_rebuild hrebuild fun d hd =>
    (hanswer d hd).imp fun d' hd' => ⟨congrArg Prod.fst hd'.1, hd'.2⟩

theorem settles (s : ExactPhraseSettings) : (Pass.exactPhrase s).Settles fun _ => () := by
  refine Pass.settles_of_keepsSelf rfl s.keepsSelf (preserves_filledIn fun _ _ => trivial)
    (fun e d parents c he h => ?_) fun e e' parents c he _ hkeep h => ?_
  · have hfinal : (s.transform e parents c).1 = .final d := h
    cases e with
    | group es =>
      cases hscoped : isScoped parents with
      | true =>
        rw [transform_of_isScoped hscoped] at hfinal
        cases hfinal
      | false =>
        rw [transform_group es hscoped] at hfinal
        cases hphrase : addedPhrase? es with
        | none => simp [hphrase] at hfinal
        | some phrase =>
          rw [hphrase] at hfinal
          cases hfinal
          exact rests_of_addedPhrase? he hphrase
    | _ => cases hfinal
  · show (s.transform e' parents c).1 = _
    have htransform : s.transform e parents c = (.keep e, c) := hkeep
    cases e' with
    | group es' =>
      cases hscoped : isScoped parents with
      | true => rw [transform_of_isScoped hscoped]
      | false =>
        cases e with
        | group es =>
          have hnone : addedPhrase? es = none := by
            rw [transform_group es hscoped] at htransform
            cases hphrase : addedPhrase? es with
            | none => rfl
            | some => simp [hphrase] at htransform
          have hnone' : addedPhrase? es' = none :=
            (addedPhrase?_congr (map_plainText?_of_mapChildren he h)).trans hnone
          rw [transform_group es' hscoped, hnone']
        | _ => cases (head_mapChildren h).1
    | _ => rfl

end ExactPhraseSettings

/-! ### Settings -/

/-- **Six passes are done after one run.** Whatever the settings and the engines, the passes for
sort directives, markers, identifiers, corrections, synonyms and phrases leave the result of their
own run as it is, the tree and the record, if the tree was without empty groups. -/
theorem runPasses_twice {s : Settings} {engines : Engines} {stage : TreeStage}
    (hstage : stage ∈ [TreeStage.sorting, .markers, .identifiers, .spelling, .synonyms,
      .exactPhrase])
    {p : Pass Context} (hp : s.pass? engines stage = some p) {e : Expr} (he : e.Filled)
    (c : Context) : runPasses [p, p] (some e) c = runPasses [p] (some e) c := by
  cases stage with
  | sorting => cases hp; exact s.sorting.settles.runPasses_eq he c
  | markers => cases hp; exact s.markers.settles.runPasses_eq he c
  | identifiers => cases hp; exact s.identifiers.settles.runPasses_eq he c
  | spelling =>
    obtain ⟨correct?, -, rfl⟩ := Option.map_eq_some_iff.1 hp
    exact (s.spelling.settles correct?).runPasses_eq he c
  | synonyms => cases hp; exact s.synonyms.settles.runPasses_eq he c
  | exactPhrase => cases hp; exact s.exactPhrase.settles.runPasses_eq he c
  | fields | inflection | backendShape | simplification => simp at hstage

/-- Corrections for `serch title:serch`. The second run looks at the pair of words that the first
one made, and not into the field. -/
theorem runPasses_twice_corrected :
    ∃ s engines p t d c, s = ({} : Settings) ∧
      engines = ({ corrector := some fun w => if w = "serch" then some "search" else none } :
        Engines) ∧
      t = group [word "serch", field "title" (word "serch")] ∧
      c = ({ language := some "en" } : Context) ∧
      TreeStage.spelling ∈ [TreeStage.sorting, .markers, .identifiers, .spelling, .synonyms,
        .exactPhrase] ∧
      s.pass? engines .spelling = some p ∧ t.Filled ∧
      d = group [synonyms [word "serch", word "search"], field "title" (word "serch")] ∧
      runPasses [p] (some t) c = (some d, c) ∧
      runPasses [p, p] (some t) c = (some d, c) := by
  have hstage : TreeStage.spelling ∈ [TreeStage.sorting, .markers, .identifiers, .spelling,
      .synonyms, .exactPhrase] := by decide
  have hpass : ({} : Settings).pass?
      { corrector := some fun w => if w = "serch" then some "search" else none } .spelling =
        some (.spelling {} fun w => if w = "serch" then some "search" else none) := rfl
  have hfilled : (group [word "serch", field "title" (word "serch")]).Filled := by
    simp [Filled, HasOperands]
  have hrun : runPasses [.spelling {} fun w => if w = "serch" then some "search" else none]
      (some (group [word "serch", field "title" (word "serch")])) { language := some "en" } =
        (some (group [synonyms [word "serch", word "search"], field "title" (word "serch")]),
          { language := some "en" }) := by
    with_unfolding_all rfl
  exact ⟨_, _, _, _, _, _, rfl, rfl, rfl, rfl, hstage, hpass, hfilled, rfl, hrun,
    (runPasses_twice hstage hpass hfilled _).trans hrun⟩

end SearchQuery
