import SearchQuery.Proofs.Pass.Filled
import SearchQuery.Proofs.Pass.Finished

/-!
# Trees of words

A query of free words and phrases is a tree of words, phrases and groups. The passes that widen such
a query add alternatives and weights, and the pass over phrases adds searches for phrases, in a
field if the settings name one. Nothing else comes into the tree.

## Main definitions

* `Expr.IsWording` — words, phrases, groups, alternatives and weights
* `Expr.IsWordingWith` — the same with added searches for some phrases

## Main results

* `Settings.preserves_of_mem_wideningPasses` — the passes before phrases are added
* `Expr.IsWordingWith.of_shaped`, `Expr.IsWordingWith.of_simplified` — the passes after
* `Settings.isWordingWith_of_runPasses` — all passes
* `Expr.IsWordingWith.pointsAtDocuments_iff` — when such a tree points at particular documents
* `Expr.IsWordingWith.of_reaches_proximity` — which searches with a distance are in such a tree
-/

namespace SearchQuery

/-- Whether nodes of the kind are words and phrases, or bring alternatives and operands together
without signs and fields. -/
def Kind.isWording : Kind → Bool
  | word | phrase | group | synonyms | boost => true
  | _ => false

open SearchQuery.Expr

namespace Expr

variable {e d : Expr}

/-- The tree has nodes of these kinds only. -/
def HasKinds (kinds : Kind → Bool) (e : Expr) : Prop := e.All fun d => kinds d.kind = true

theorem hereditary_hasKinds (kinds : Kind → Bool) : Hereditary (HasKinds kinds) where
  child h hc := h.child hc
  mapChildren he hf h := by
    refine .intro ((congrArg kinds (head_mapChildren h).1).trans he.root) fun d hd => ?_
    obtain ⟨c, hc, t, hd⟩ := (mapChildren_spec h).2 d hd
    exact hf c hc t d hd

/-- The tree has words, phrases, groups, alternatives and weights only. -/
def IsWording (e : Expr) : Prop := e.HasKinds Kind.isWording

section Constructors

variable {v : String} {body : Expr} {es : List Expr} {score : Decimal}

@[simp] theorem isWording_word : (word v).IsWording := by
  simp [IsWording, HasKinds, kind, Kind.isWording]

@[simp] theorem isWording_phrase : (phrase v).IsWording := by
  simp [IsWording, HasKinds, kind, Kind.isWording]

@[simp] theorem isWording_group : (group es).IsWording ↔ ∀ e ∈ es, e.IsWording := by
  simp [IsWording, HasKinds, kind, Kind.isWording]

@[simp] theorem isWording_synonyms : (synonyms es).IsWording ↔ ∀ e ∈ es, e.IsWording := by
  simp [IsWording, HasKinds, kind, Kind.isWording]

@[simp] theorem isWording_boost : (boost body score).IsWording ↔ body.IsWording := by
  simp [IsWording, HasKinds, kind, Kind.isWording]

end Constructors

end Expr

/-! ### Widening -/

theorem Expr.IsWording.corrected {e : Expr} (he : e.IsWording) (correct? : Corrector) :
    (e.corrected correct?).IsWording := by
  obtain h | ⟨value, better, -, -, -, h⟩ := e.corrected_cases correct? <;> rw [h]
  · exact he
  · simp

theorem SpellingSettings.preserves_isWording (s : SpellingSettings) (correct? : Corrector) :
    (s.transform correct?).Preserves IsWording := by
  intro e e' parents c he h
  obtain ⟨-, hstep⟩ | ⟨-, ⟨operands, rfl, hstep⟩ | ⟨value, -, -, hstep⟩ | ⟨-, -, hstep⟩⟩ :=
    s.transform_cases correct? e parents c <;> rw [hstep] at h <;> cases h
  · exact he
  · rw [isWording_group] at he ⊢
    intro d hd
    obtain ⟨o, ho, rfl⟩ := List.mem_map.1 hd
    exact (he o ho).corrected correct?
  · exact he.corrected correct?
  · exact he

theorem SynonymSets.preserves_isWording (s : SynonymSets) : s.transform.Preserves IsWording := by
  have hexpand {term : String} {d : Expr} (h : s.expand? term = some d) : d.IsWording := by
    obtain ⟨set, -, rfl⟩ := Option.map_eq_some_iff.1 h
    simp
  intro e e' parents c he h
  obtain ⟨group, -, hgroup, hstep⟩ | ⟨-, hstep⟩ := s.transform_cases e parents c <;>
    rw [hstep] at h <;> cases h
  · cases e with
    | word | phrase => exact hexpand hgroup
    | _ => cases hgroup
  · exact he

namespace InflectionSettings

variable (s : InflectionSettings) (inflect? : Option Inflector) (value : String)

theorem isWording_of_mem_forms {e : Expr} (h : e ∈ s.forms inflect? value) : e.IsWording := by
  obtain ⟨form, rfl | ⟨score, rfl⟩⟩ := exists_of_mem_forms h
  · exact isWording_word
  · exact isWording_boost.2 isWording_word

theorem isWording_expand : (s.expand inflect? value).IsWording := by
  obtain h | h := s.expand_cases inflect? value <;> rw [h]
  · exact isWording_word
  · refine isWording_synonyms.2 fun d hd => ?_
    rcases List.mem_cons.1 hd with rfl | hd
    · exact isWording_word
    · exact s.isWording_of_mem_forms inflect? value hd

theorem preserves_isWording (engines : NameTable Inflector) :
    (s.transform engines).Preserves IsWording := by
  intro e e' parents c he h
  obtain ⟨value, -, hstep⟩ | ⟨-, hstep⟩ | ⟨-, hstep⟩ := s.transform_cases engines e parents c <;>
    rw [hstep] at h <;> cases h
  · exact s.isWording_expand _ _
  · exact he
  · exact he

end InflectionSettings

/-! ### What such a tree points at -/

namespace Expr

/-- The tree points at particular documents at a node that is not excluded. -/
def PointsAtDocuments (e : Expr) : Prop :=
  e.Reaches (fun d => (d.kind == .minus) = true) fun d => Processed.isLookup d.kind = true

/-- The tree searches with a distance. -/
def HasDistance (e : Expr) : Prop := e.Reaches (fun _ => False) fun d => d.kind = .proximity

variable {e : Expr}

theorem pointsAtDocuments_of_isWording (h : e.kind.isWording = true) :
    e.PointsAtDocuments ↔ ∃ c ∈ e.children, c.PointsAtDocuments := by
  have hskip : ¬ (e.kind == .minus) = true := by
    intro hminus
    rw [beq_iff_eq.1 hminus] at h
    cases h
  have hlookup : ¬ Processed.isLookup e.kind = true := by
    cases e with
    | word | phrase | group | synonyms | boost => exact Bool.false_ne_true
    | _ => cases h
  rw [PointsAtDocuments, reaches_iff, and_iff_right hskip, or_iff_right hlookup]
  rfl

theorem hasDistance_of_isWording (h : e.kind.isWording = true) :
    e.HasDistance ↔ ∃ c ∈ e.children, c.HasDistance := by
  have hkind : e.kind ≠ .proximity := by
    intro hproximity
    rw [hproximity] at h
    cases h
  rw [HasDistance, reaches_iff, and_iff_right id, or_iff_right hkind]
  rfl

/-- The search for a phrase is in its clause. -/
theorem reaches_tidyClause (s : ExactPhraseSettings) (p : String) (n : Nat) :
    (s.tidyClause p n).Reaches (fun _ => False) (· = .proximity (.phrase p) s.slop) := by
  have hplaced : (s.placed p).Reaches (fun _ => False) (· = .proximity (.phrase p) s.slop) := by
    rw [ExactPhraseSettings.placed]
    split
    · exact .there id (List.mem_singleton_self _) (.here id rfl)
    · exact .here id rfl
  rw [ExactPhraseSettings.tidyClause]
  split
  · exact hplaced
  · exact .there id (List.mem_singleton_self _) hplaced

end Expr

/-! ### With phrases -/

namespace Expr

variable {s : ExactPhraseSettings} {Q : String → Prop} {e d : Expr} {es : List Expr}

/-- The tree has words, phrases, groups, alternatives and weights, and searches for the phrases that
are added. -/
inductive IsWordingWith (s : ExactPhraseSettings) (Q : String → Prop) : Expr → Prop where
  /-- A word. -/
  | word (v : String) : IsWordingWith s Q (.word v)
  /-- A phrase. -/
  | phrase (v : String) : IsWordingWith s Q (.phrase v)
  /-- A search for an added phrase. -/
  | placed {p : String} (h : Q p) : IsWordingWith s Q (s.placed p)
  /-- A group. -/
  | group {es : List Expr} (h : ∀ e ∈ es, IsWordingWith s Q e) : IsWordingWith s Q (.group es)
  /-- A group of alternatives. -/
  | synonyms {es : List Expr} (h : ∀ e ∈ es, IsWordingWith s Q e) :
      IsWordingWith s Q (.synonyms es)
  /-- A weight. -/
  | boost {body : Expr} {score : Decimal} (h : IsWordingWith s Q body) :
      IsWordingWith s Q (.boost body score)

theorem IsWording.isWordingWith (he : e.IsWording) : e.IsWordingWith s Q := by
  induction he with
  | @intro e root _ ih =>
    cases e with
    | word v => exact .word v
    | phrase v => exact .phrase v
    | group es => exact .group ih
    | synonyms es => exact .synonyms ih
    | boost body score => exact .boost (ih body (List.mem_singleton_self _))
    | _ => cases root

theorem isWordingWith_tidyClause {p : String} (h : Q p) (n : Nat) :
    (s.tidyClause p n).IsWordingWith s Q := by
  rw [ExactPhraseSettings.tidyClause]
  split
  · exact .placed h
  · exact .boost (.placed h)

/-- Adding phrases to words. -/
theorem IsWording.of_phrased {e d : Expr} (he : e.IsWording) (hfilled : e.Filled)
    (h : e.phrased s = some d) : d.IsWordingWith s fun _ => True := by
  cases e with
  | word | phrase =>
    rw [phrased_eq_rebuild Kind.noConfusion rfl] at h
    cases h
    exact he.isWordingWith
  | synonyms es =>
    rw [phrased_of_isScoped hfilled rfl] at h
    cases h
    exact he.isWordingWith
  | boost body score =>
    rw [phrased_eq_rebuild Kind.noConfusion rfl, rebuild_boost] at h
    obtain ⟨d, hd, rfl⟩ := Option.map_eq_some_iff.1 h
    exact .boost (of_phrased (isWording_boost.1 he) (hfilled.child (List.mem_singleton_self _)) hd)
  | group es =>
    have hes := isWording_group.1 he
    cases hspelled : addedPhrase? es with
    | some p =>
      rw [phrased_group_of_some hspelled] at h
      cases h
      refine .group fun d hd => ?_
      rcases List.mem_append.1 hd with hd | hd
      · exact (hes d hd).isWordingWith
      · rw [List.mem_singleton.1 hd, ExactPhraseSettings.clause_eq]
        exact .boost (.placed trivial)
    | none =>
      rw [phrased_group_of_none hspelled] at h
      cases eq_of_gather_eq_some h
      refine .group fun d hd => ?_
      obtain ⟨o, ho, hd⟩ := List.mem_filterMap.1 hd
      have hsize : sizeOf o < sizeOf (Expr.group es) := sizeOf_lt_of_mem_children ho
      exact of_phrased (hes o ho) (hfilled.child ho) hd
  | _ => cases he.root
termination_by sizeOf e

namespace IsWordingWith

/-- The pass over shapes. -/
theorem of_shaped (he : e.IsWordingWith s Q) (h : e.shaped = some d) : d.IsWordingWith s Q := by
  induction he generalizing d with
  | word v =>
    cases shaped_word.symm.trans h
    exact .word v
  | phrase v =>
    rw [shaped_phrase, BackendShape.shapePhrase] at h
    split at h <;> cases h
    · exact .word _
    · exact .phrase v
  | placed hp =>
    cases (s.shaped_placed _).symm.trans h
    exact .placed hp
  | group _ ih =>
    cases eq_of_gather_eq_some (shaped_group.symm.trans h)
    refine .group fun d hd => ?_
    obtain ⟨o, ho, hd⟩ := List.mem_filterMap.1 hd
    exact ih o ho hd
  | synonyms _ ih =>
    cases eq_of_gather_eq_some (shaped_synonyms.symm.trans h)
    refine .synonyms fun d hd => ?_
    obtain ⟨o, ho, hd⟩ := List.mem_filterMap.1 hd
    exact ih o ho hd
  | boost _ ih =>
    rw [shaped_boost] at h
    obtain ⟨d, hd, rfl⟩ := Option.map_eq_some_iff.1 h
    exact .boost (ih hd)

theorem of_mem_operands (he : e.IsWordingWith s Q) (hd : d ∈ e.operands) :
    d.IsWordingWith s Q := by
  by_cases hgroup : e.kind = .group
  · cases he with
    | group h => exact h d hd
    | placed =>
      simp only [ExactPhraseSettings.placed] at hgroup
      split at hgroup <;> cases hgroup
    | _ => cases hgroup
  · rw [operands_of_ne_group hgroup] at hd
    exact List.mem_singleton.1 hd ▸ he

theorem spliceGroups (h : ∀ e ∈ es, e.IsWordingWith s Q) :
    (Expr.group (spliceGroups es)).IsWordingWith s Q := by
  refine .group fun d hd => ?_
  obtain ⟨o, ho, hd⟩ := mem_spliceGroups.1 hd
  exact (h o ho).of_mem_operands hd

/-- The pass that removes what has no effect. -/
theorem of_simplified (he : e.IsWordingWith s Q) (h : e.simplified = some d) :
    d.IsWordingWith s Q := by
  induction he generalizing d with
  | word v =>
    cases (simplified_of_value?_isSome rfl).symm.trans h
    exact .word v
  | phrase v =>
    cases (simplified_of_value?_isSome rfl).symm.trans h
    exact .phrase v
  | placed hp =>
    cases (s.simplified_placed _).symm.trans h
    exact .placed hp
  | group _ ih =>
    cases eq_of_gather_eq_some (simplified_group.symm.trans h)
    refine spliceGroups fun d hd => ?_
    obtain ⟨o, ho, hd⟩ := List.mem_filterMap.1 hd
    exact ih o ho hd
  | synonyms _ ih =>
    cases eq_of_gather_eq_some (simplified_synonyms.symm.trans h)
    refine .synonyms fun d hd => ?_
    obtain ⟨o, ho, hd⟩ := List.mem_filterMap.1 hd
    exact ih o ho hd
  | boost _ ih =>
    rw [simplified_boost] at h
    obtain ⟨d, hd, rfl⟩ := Option.map_eq_some_iff.1 h
    split
    · exact ih hd
    · exact .boost (ih hd)

/-- The search for a phrase with a distance is one for this phrase. -/
theorem eq_of_reaches_proximity {skips : Expr → Prop} {p q : String} {slop : UInt32}
    (h : (Expr.proximity (.phrase q) slop).Reaches skips
      fun d => ∃ distance, d = .proximity (.phrase p) distance) : q = p := by
  cases h with
  | here _ h =>
    obtain ⟨_, h⟩ := h
    cases h
    rfl
  | there _ hc h =>
    rw [List.mem_singleton.1 hc] at h
    obtain ⟨_, h⟩ := reaches_of_value?_isSome rfl h
    cases h

theorem eq_of_reaches_placed {skips : Expr → Prop} {p q : String}
    (h : (s.placed q).Reaches skips fun d => ∃ distance, d = .proximity (.phrase p) distance) :
    q = p := by
  rw [ExactPhraseSettings.placed] at h
  split at h
  · cases h with
    | here _ h =>
      obtain ⟨_, h⟩ := h
      cases h
    | there _ hc h => exact eq_of_reaches_proximity (List.mem_singleton.1 hc ▸ h)
  · exact eq_of_reaches_proximity h

/-- Such a tree searches with a distance for added phrases only. -/
theorem of_reaches_proximity {skips : Expr → Prop} {p : String} (he : e.IsWordingWith s Q)
    (h : e.Reaches skips fun d => ∃ distance, d = .proximity (.phrase p) distance) : Q p := by
  induction he with
  | word | phrase =>
    obtain ⟨_, h⟩ := reaches_of_value?_isSome rfl h
    cases h
  | placed hq => exact eq_of_reaches_placed h ▸ hq
  | group _ ih | synonyms _ ih =>
    cases h with
    | here _ h =>
      obtain ⟨_, h⟩ := h
      cases h
    | there _ hc h => exact ih _ hc h
  | boost _ ih =>
    cases h with
    | here _ h =>
      obtain ⟨_, h⟩ := h
      cases h
    | there _ hc h => exact ih (List.mem_singleton.1 hc ▸ h)

/-- **When such a tree points at particular documents**: phrases have been added, and they are
searched in a field. -/
theorem pointsAtDocuments_iff (he : e.IsWordingWith s Q) :
    e.PointsAtDocuments ↔ s.field ≠ none ∧ e.HasDistance := by
  have hnode {e : Expr} (hkind : e.kind.isWording = true)
      (ih : ∀ c ∈ e.children, (c.PointsAtDocuments ↔ s.field ≠ none ∧ c.HasDistance)) :
      e.PointsAtDocuments ↔ s.field ≠ none ∧ e.HasDistance := by
    rw [pointsAtDocuments_of_isWording hkind, hasDistance_of_isWording hkind]
    constructor
    · rintro ⟨c, hc, h⟩
      exact ⟨((ih c hc).1 h).1, c, hc, ((ih c hc).1 h).2⟩
    · rintro ⟨hfield, c, hc, h⟩
      exact ⟨c, hc, (ih c hc).2 ⟨hfield, h⟩⟩
  induction he with
  | word | phrase => exact hnode rfl nofun
  | group _ ih | synonyms _ ih => exact hnode rfl ih
  | boost _ ih => exact hnode rfl fun c hc => List.mem_singleton.1 hc ▸ ih
  | @placed p =>
    have hnear : ¬ (Expr.proximity (.phrase p) s.slop).PointsAtDocuments := by
      rintro (⟨-, h⟩ | ⟨-, hc, h⟩)
      · cases h
      · rw [List.mem_singleton.1 hc] at h
        cases reaches_of_value?_isSome rfl h
    have hdistance : (Expr.proximity (.phrase p) s.slop).HasDistance := .here id rfl
    rw [ExactPhraseSettings.placed]
    cases s.field with
    | none => exact iff_of_false hnear fun h => h.1 rfl
    | some name =>
      refine iff_of_true (.here Bool.false_ne_true rfl) ⟨Option.some_ne_none name, ?_⟩
      exact .there id (List.mem_singleton_self _) hdistance

end IsWordingWith

end Expr

/-- The last three passes together. -/
theorem Expr.IsWording.of_finished {s : ExactPhraseSettings} {e d : Expr} (he : e.IsWording)
    (hfilled : e.Filled) (h : e.finished s false = some d) :
    d.IsWordingWith s fun _ => True := by
  obtain ⟨shaped, hshaped, hsimplified⟩ := Option.bind_eq_some_iff.1 h
  obtain ⟨phrased, hphrased, hshaped⟩ := Option.bind_eq_some_iff.1 hshaped
  exact ((he.of_phrased hfilled hphrased).of_shaped hshaped).of_simplified hsimplified

/-! ### The passes before -/

/-- No word of the tree is the beginning of an identifier with an asterisk. -/
def Expr.NamesNoIdentifier (e : Expr) : Prop :=
  e.All fun d => ∀ v, d = word v → Doi.pattern? (Text.lowercase v.toList) = none

theorem Expr.hereditary_namesNoIdentifier : Hereditary NamesNoIdentifier where
  child h hc := h.child hc
  mapChildren {σ e e' f s} he hf h := by
    refine .intro (fun v hv => ?_) fun d hd => ?_
    · subst hv
      have hkind := (head_mapChildren h).1
      cases e with
      | word w =>
        cases h
        exact he.root v rfl
      | _ => cases hkind
    · obtain ⟨c, hc, t, hd⟩ := (mapChildren_spec h).2 d hd
      exact hf c hc t d hd

section Early

variable {e : Expr} (c : Context)

/-- In a tree of words there is no sort directive. -/
theorem SortSettings.run_of_isWording (s : SortSettings) (he : e.IsWording) (hfilled : e.Filled) :
    (Pass.sorting s).run e c = (some e, c) := by
  refine Pass.parentsFirst_eq_self (p := .sorting s) ((hfilled.and he).imp ?_) [] c
  rintro d ⟨hd, hkind⟩
  refine ⟨hd, fun parents c => ?_⟩
  cases d with
  | word | phrase | group | synonyms | boost => rfl
  | _ => cases hkind

/-- In a tree of words there is no field. -/
theorem FieldSettings.run_of_isWording (s : FieldSettings) (he : e.IsWording)
    (hfilled : e.Filled) : (Pass.fields s).run e c = (some e, c) := by
  refine Pass.parentsFirst_eq_self (p := .fields s) ((hfilled.and he).imp ?_) [] c
  rintro d ⟨hd, hkind⟩
  refine ⟨hd, fun parents c => ?_⟩
  cases d with
  | word | phrase | group | synonyms | boost => rfl
  | _ => cases hkind

/-- In a tree of words that names no identifier none is found. -/
theorem IdentifierSettings.run_of_isWording (s : IdentifierSettings) (he : e.IsWording)
    (hfilled : e.Filled) (hnames : e.NamesNoIdentifier) :
    (Pass.identifiers s).run e c = (some e, c) := by
  refine Pass.parentsFirst_eq_self (p := .identifiers s)
    (((hfilled.and he).and hnames).imp ?_) [] c
  rintro d ⟨⟨hd, hkind⟩, hpattern⟩
  refine ⟨hd, fun parents c => ?_⟩
  cases d with
  | word v =>
    have hwildcard : s.wildcard? v parents = none := by
      rw [wildcard?, hpattern v rfl]
      split <;> rfl
    have htransform : s.transform (word v) parents c = (.keep (word v), c) := by
      simp [transform, identifier?, hwildcard]
    exact htransform
  | phrase | group | synonyms | boost => rfl
  | _ => cases hkind

/-- What is left of a tree of words without markers is one, and identifiers are as they were. -/
theorem MarkerSettings.of_run (s : MarkerSettings) {P : Expr → Prop} (hP : Hereditary P) (he : P e)
    {d : Expr} (h : ((Pass.markers s).run e c).1 = some d) : P d :=
  Pass.preserves_of_transform (p := .markers s) hP (s.preserves P) he h

end Early

namespace Settings

variable (s : Settings) (engines : Engines)

/-- The passes that widen words. -/
def wideningPasses : List (Pass Context) :=
  (engines.corrector.map (.spelling s.spelling)).toList ++
    [.synonyms s.synonyms, .inflection s.inflection engines.inflectors]

variable {s engines}

/-- The usual passes in the usual order. -/
theorem passes_eq_append (hstages : s.stages.tree = TreeStage.all) :
    s.passes engines = .sorting s.sorting :: .fields s.fields :: .markers s.markers ::
      .identifiers s.identifiers ::
        (s.wideningPasses engines ++ finishingPasses s.exactPhrase) := by
  rw [passes, hstages, wideningPasses]
  cases h : engines.corrector <;> simp [TreeStage.all, pass?, h, finishingPasses]

variable {p : Pass Context} {α : Type} {view : Context → α}

theorem keepsView_of_mem_wideningPasses (h : p ∈ s.wideningPasses engines) :
    p.KeepsView view := by
  simp only [wideningPasses, List.mem_append, Option.mem_toList, Option.map_eq_some_iff,
    List.mem_cons, List.not_mem_nil, or_false] at h
  refine Pass.keepsView_of_transform ?_
  rcases h with ⟨correct?, -, rfl⟩ | rfl | rfl
  · exact s.spelling.keepsView correct?
  · exact s.synonyms.keepsView
  · exact s.inflection.keepsView engines.inflectors

theorem keepsView_of_mem_finishingPasses {s : ExactPhraseSettings} (h : p ∈ finishingPasses s) :
    p.KeepsView view := by
  simp only [finishingPasses, List.mem_cons, List.not_mem_nil, or_false] at h
  refine Pass.keepsView_of_transform ?_
  rcases h with rfl | rfl | rfl
  · exact s.isStateless.keepsView
  · exact BackendShape.isStateless.keepsView
  · exact Simplification.isStateless.keepsView

theorem preserves_of_mem_wideningPasses (h : p ∈ s.wideningPasses engines) :
    p.Preserves fun e => e.IsWording ∧ e.Filled := by
  have hand {p : Pass Context} (hwording : p.transform.Preserves IsWording)
      (hfilled : p.transform.Preserves (FilledIn fun _ => True)) :
      p.Preserves fun e => e.IsWording ∧ e.Filled := by
    intro e d c he hd
    have hwording' := Pass.preserves_of_transform (hereditary_hasKinds _) hwording
    have hfilled' := Pass.preserves_of_transform hereditary_filledIn hfilled
    exact ⟨hwording' he.1 hd, (hfilled' he.2.filledIn hd).filled⟩
  simp only [wideningPasses, List.mem_append, Option.mem_toList, Option.map_eq_some_iff,
    List.mem_cons, List.not_mem_nil, or_false] at h
  rcases h with ⟨correct?, -, rfl⟩ | rfl | rfl
  · exact hand (s.spelling.preserves_isWording correct?) (s.spelling.preserves_filledIn correct?)
  · exact hand s.synonyms.preserves_isWording s.synonyms.preserves_filledIn
  · exact hand (s.inflection.preserves_isWording _) (s.inflection.preserves_filledIn _)

variable (engines) in
/-- **What the usual passes leave of a query of words**: words and phrases with their alternatives,
and searches for phrases that the words spell. No identifier is noted. -/
theorem isWordingWith_of_runPasses (hstages : s.stages.tree = TreeStage.all) {t : Expr}
    (ht : t.IsWording) (hfilled : t.Filled) (hnames : t.NamesNoIdentifier) (c : Context) :
    (runPasses (s.passes engines) (some t) c).2.dois = c.dois ∧
      ∀ e, (runPasses (s.passes engines) (some t) c).1 = some e →
        e.IsWordingWith s.exactPhrase fun _ => True := by
  rw [passes_eq_append hstages, runPasses_cons, s.sorting.run_of_isWording c ht hfilled,
    runPasses_cons, s.fields.run_of_isWording c ht hfilled, runPasses_cons]
  have hdois : ((Pass.markers s.markers).run t c).2.dois = c.dois :=
    Pass.keepsView_of_transform (p := .markers s.markers) (s.markers.keepsView fun _ => rfl) t c
  cases hleft : ((Pass.markers s.markers).run t c).1 with
  | none =>
    rw [runPasses_none]
    exact ⟨hdois, nofun⟩
  | some d =>
    have hd : d.IsWording := s.markers.of_run c (hereditary_hasKinds _) ht hleft
    have hdfilled : d.Filled :=
      (s.markers.of_run c hereditary_filledIn hfilled.filledIn hleft).filled
    have hdnames : d.NamesNoIdentifier :=
      s.markers.of_run c hereditary_namesNoIdentifier hnames hleft
    rw [runPasses_cons, s.identifiers.run_of_isWording _ hd hdfilled hdnames]
    constructor
    · have hkeep : ∀ p ∈ s.wideningPasses engines ++ finishingPasses s.exactPhrase,
          p.KeepsView Context.dois := by
        intro p hp
        rcases List.mem_append.1 hp with hp | hp
        · exact keepsView_of_mem_wideningPasses hp
        · exact keepsView_of_mem_finishingPasses hp
      exact (runPasses_keepView hkeep _ _).trans hdois
    · intro e he
      rw [runPasses_append] at he
      cases hwide : (runPasses (s.wideningPasses engines) (some d)
          ((Pass.markers s.markers).run t c).2).1 with
      | none =>
        rw [hwide, runPasses_none] at he
        cases he
      | some d' =>
        obtain ⟨hd', hdfilled'⟩ := runPasses_preserves
          (fun p hp => preserves_of_mem_wideningPasses hp)
          (fun _ h => Option.some.inj h ▸ ⟨hd, hdfilled⟩) hwide
        rw [hwide, runPasses_finishingPasses] at he
        exact hd'.of_finished hdfilled' he

end Settings

end SearchQuery
