import SearchQuery.Proofs.Pass.Preservation

/-!
# What passes note in the context

A pass changes the context of a query only at the nodes that its transformation looks at. What no
transformation touches is therefore the same after a pass, and after several passes in a row.

## Views

What is the same is a view of the state: a part of it, or something computed from it. A view of the
context has what decides about a query without a tree: whether a search in a rejected field was
dropped, and what the settings say. Only the pass over the names of fields touches the first, and
no pass touches the second.

## Main definitions

* `Transform.KeepsView`, `Pass.KeepsView` — a view of the state is the same afterwards
* `Transform.IsStateless` — a transformation that looks at the tree only
* `Context.verdict` — what decides about a query without a tree

## Main results

* `Pass.keepsView_of_transform` — what no node changes, a pass does not change
* `Settings.pass?_keepsView_verdict` — only one pass may change the verdict
-/

namespace SearchQuery

open SearchQuery.Expr

variable {σ α : Type} {view : σ → α}

/-- The view of the state is the same after a node has been looked at. -/
def Transform.KeepsView (view : σ → α) (f : Transform σ) : Prop :=
  ∀ e parents s, view (f e parents s).2 = view s

namespace Pass

variable {p : Pass σ}

/-- The view of the state is the same after a tree has been looked at. -/
def KeepsView (view : σ → α) (p : Pass σ) : Prop := ∀ e s, view (p.run e s).2 = view s

theorem view_mapChildren {e : Expr} {f : (c : Expr) → c ∈ e.children → σ → Option Expr × σ} {s : σ}
    (hf : ∀ c hc t, view (f c hc t).2 = view t) : view (e.mapChildren f s).2 = view s := by
  have hiff := @mapChildren_state_iff σ e f s (fun t => view t = view s) (fun _ => False)
    (fun c hc t => by rw [hf c hc t, or_false]) (fun _ _ _ _ _ _ _ _ h => h)
  exact hiff.2 (.inl rfl)

theorem view_parentsFirst (hp : p.transform.KeepsView view) (parents : List Kind) (e : Expr)
    (s : σ) : view (p.parentsFirst parents e s).2 = view s := by
  have hstep : view (p.transform e parents s).2 = view s := hp e parents s
  rw [parentsFirst]
  split
  · rfl
  split
  · rename_i t hremove
    rwa [hremove] at hstep
  · rename_i d t hfinal
    rwa [hfinal] at hstep
  · rename_i d t hkeep
    rw [hkeep] at hstep
    rw [← hstep]
    refine view_mapChildren fun c hc t => ?_
    have hrank : p.rank (parents ++ [d.kind]) c < p.rank parents e :=
      p.descends e parents s d (by rw [hkeep]) c hc
    exact view_parentsFirst hp _ c t
termination_by p.rank parents e

theorem view_childrenFirst (hp : p.transform.KeepsView view) (parents : List Kind) (e : Expr)
    (s : σ) : view (p.childrenFirst parents e s).2 = view s := by
  have hmap : view (e.mapChildren
      (fun c _ s => p.childrenFirst (parents ++ [e.kind]) c s) s).2 = view s := by
    refine view_mapChildren fun c hc t => ?_
    have hsize : sizeOf c < sizeOf e := sizeOf_lt_of_mem_children hc
    exact view_childrenFirst hp _ c t
  rw [childrenFirst]
  split
  · rfl
  split
  · rename_i t hnone
    rwa [hnone] at hmap
  · rename_i d t hsome
    rw [hsome] at hmap
    rw [← hmap]
    exact hp d parents t
termination_by sizeOf e

/-- **What no node changes, a pass does not change.** -/
theorem keepsView_of_transform (hp : p.transform.KeepsView view) : p.KeepsView view := by
  intro e s
  rw [run]
  split
  · exact view_parentsFirst hp [] e s
  · exact view_childrenFirst hp [] e s

end Pass

theorem runPasses_keepView {view : Context → α} {ps : List (Pass Context)}
    (hps : ∀ p ∈ ps, p.KeepsView view) (tree? : Option Expr) (c : Context) :
    view (runPasses ps tree? c).2 = view c := by
  induction ps generalizing tree? c with
  | nil => rfl
  | cons p ps ih =>
    cases tree? with
    | none => rfl
    | some e =>
      rw [runPasses_cons, ih fun q hq => hps q (List.mem_cons_of_mem p hq)]
      exact hps p List.mem_cons_self e c

/-! ### The verdict on a query without a tree -/

/-- Whether a search in a rejected field was dropped, and what the settings say about a query
without a tree. -/
def Context.verdict (c : Context) : Bool × BlankPolicy := (c.hasInvalidFields, c.blank)

theorem SortSettings.keepsView (s : SortSettings) : s.transform.KeepsView Context.verdict := by
  intro e parents c
  obtain ⟨field, -, hstep⟩ | ⟨-, hstep⟩ := s.transform_cases e parents c
  · rw [hstep]
    rfl
  · rw [hstep]

theorem MarkerSettings.keepsView (s : MarkerSettings) {view : Context → α}
    (hview : ∀ c, view { c with isForcedClean := true } = view c) :
    s.transform.KeepsView view := by
  intro e parents c
  obtain ⟨value, -, -, hstep⟩ | ⟨-, hstep⟩ := s.transform_cases e parents c
  · rw [hstep]
    exact hview c
  · rw [hstep]

theorem IdentifierSettings.keepsView (s : IdentifierSettings) :
    s.transform.KeepsView Context.verdict := by
  intro e parents c
  obtain ⟨doi, -, -, hstep⟩ | ⟨value, d, -, -, hstep⟩ | ⟨-, -, hstep⟩ :=
    s.transform_cases e parents c
  · rw [hstep]
    rfl
  · rw [hstep]
  · rw [hstep]

/-- The transformation neither looks at the state nor changes it. -/
def Transform.IsStateless (f : Transform σ) : Prop :=
  ∀ e parents s t, f e parents s = ((f e parents t).1, s)

theorem Transform.IsStateless.keepsView {f : Transform σ} (h : f.IsStateless) :
    f.KeepsView view := by
  intro e parents s
  rw [h e parents s s]

/-- A transformation that leaves the state alone keeps every view of it. -/
theorem Transform.keepsView_of_snd {f : Transform σ} (h : ∀ e parents s, (f e parents s).2 = s) :
    f.KeepsView view := by
  intro e parents s
  rw [h]

theorem SpellingSettings.keepsView (s : SpellingSettings) (correct? : Corrector)
    {view : Context → α} : (s.transform correct?).KeepsView view :=
  Transform.keepsView_of_snd fun e parents c => by
    obtain ⟨-, hstep⟩ | ⟨-, ⟨operands, -, hstep⟩ | ⟨value, -, -, hstep⟩ | ⟨-, -, hstep⟩⟩ :=
      s.transform_cases correct? e parents c <;> rw [hstep]

theorem SynonymSets.keepsView (s : SynonymSets) {view : Context → α} :
    s.transform.KeepsView view :=
  Transform.keepsView_of_snd fun e parents c => by
    obtain ⟨group, -, -, hstep⟩ | ⟨-, hstep⟩ := s.transform_cases e parents c <;> rw [hstep]

theorem InflectionSettings.keepsView (s : InflectionSettings) (engines : NameTable Inflector)
    {view : Context → α} : (s.transform engines).KeepsView view :=
  Transform.keepsView_of_snd fun e parents c => by
    obtain ⟨value, -, hstep⟩ | ⟨-, hstep⟩ | ⟨-, hstep⟩ := s.transform_cases engines e parents c <;>
      rw [hstep]

theorem ExactPhraseSettings.isStateless (s : ExactPhraseSettings) : s.transform.IsStateless := by
  intro e parents c c'
  simp only [transform]
  split
  · split
    · rfl
    · split <;> rfl
  · rfl

theorem BackendShape.isStateless : transform.IsStateless := by
  intro e parents c c'
  simp only [transform]
  split
  · split <;> rfl
  all_goals rfl

theorem Simplification.isStateless : transform.IsStateless := by
  intro e parents c c'
  simp only [transform]
  split
  · rfl
  · split <;> rfl
  · rfl

/-- **Only the pass over the names of fields may change the verdict.** -/
theorem Settings.pass?_keepsView_verdict {s : Settings} {engines : Engines} {stage : TreeStage}
    (hstage : stage ≠ .fields) {p : Pass Context} (h : s.pass? engines stage = some p) :
    p.KeepsView Context.verdict := by
  refine Pass.keepsView_of_transform ?_
  cases stage with
  | fields => exact absurd rfl hstage
  | sorting => cases h; exact s.sorting.keepsView
  | markers => cases h; exact s.markers.keepsView fun _ => rfl
  | identifiers => cases h; exact s.identifiers.keepsView
  | spelling =>
    obtain ⟨correct?, -, rfl⟩ := Option.map_eq_some_iff.1 h
    exact s.spelling.keepsView correct?
  | synonyms => cases h; exact s.synonyms.keepsView
  | inflection => cases h; exact s.inflection.keepsView engines.inflectors
  | exactPhrase => cases h; exact s.exactPhrase.isStateless.keepsView
  | backendShape => cases h; exact BackendShape.isStateless.keepsView
  | simplification => cases h; exact Simplification.isStateless.keepsView

end SearchQuery
