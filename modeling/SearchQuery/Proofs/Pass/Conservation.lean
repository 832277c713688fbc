import SearchQuery.Proofs.Pass.Filled
import SearchQuery.Proofs.Pass.Rebuilding
import SearchQuery.Proofs.Tree.Terms

/-!
# What passes conserve

The terms of a node are those of its children, one child after the other. A view of trees that is
made up in this way, from the node and from what is seen of its children, stays the same when the
children are replaced by others of which the same is seen. So a pass conserves it if each
replacement of a node shows the same as the node.

## No node is lost

The children of a node are all replaced, and nothing is lost, if the groups of the tree have
operands and no replacement removes a node. What is seen of the tree is then seen of what the pass
leaves, and that there is something left is part of the statement.

## Main definitions

* `Expr.Compositional` — a view that is made up from those of the children
* `Transform.Conserves` — a transformation whose replacements show what the nodes showed

## Main results

* `Expr.exists_rebuild_of_compositional` — what is seen of a node whose children are replaced
* `Expr.compositional_terms` — the terms of a tree are such a view
* `Pass.exists_parentsFirst_of_conserves` — what the transformation conserves, the pass conserves
-/

namespace SearchQuery

open SearchQuery.Expr

variable {σ α : Type} {view : Expr → α}

namespace Expr

variable {e d : Expr} {g : Expr → Option Expr}

/-- What is seen of a tree is made up from the node and from what is seen of its children. -/
def Compositional (view : Expr → α) : Prop :=
  ∀ ⦃e d : Expr⦄ ⦃g : Expr → Option Expr⦄, e.rebuild g = some d →
    (∀ c ∈ e.children, ∃ c', g c = some c' ∧ view c' = view c) → view d = view e

/-! ### Children with answers -/

/-- A node with operands is not lost if there is an answer for each child. -/
theorem exists_rebuild (he : e.HasOperands) (h : ∀ c ∈ e.children, ∃ c', g c = some c') :
    ∃ d, e.rebuild g = some d := by
  have hgather {make : List Expr → Expr} {es : List Expr} (hne : es ≠ [])
      (h : ∀ c ∈ es, ∃ c', g c = some c') : ∃ d, gather make (es.filterMap g) = some d := by
    obtain ⟨c, hc⟩ := List.exists_mem_of_ne_nil es hne
    obtain ⟨c', hc'⟩ := h c hc
    have hmem : c' ∈ es.filterMap g := List.mem_filterMap.2 ⟨c, hc, hc'⟩
    exact ⟨_, gather_of_ne_nil (List.ne_nil_of_mem hmem)⟩
  cases e with
  | word | phrase | regex | doi | url => exact ⟨_, rfl⟩
  | group => exact rebuild_group ▸ hgather he h
  | synonyms => exact rebuild_synonyms ▸ hgather he h
  | range left right il ir =>
    obtain ⟨left', hleft⟩ := h left (by simp [children])
    obtain ⟨right', hright⟩ := h right (by simp [children])
    simp [hleft, hright]
  | field | boost | fuzzy | proximity | plus | minus =>
    obtain ⟨body', hbody⟩ := h _ List.mem_cons_self
    simp [hbody]

/-- **What is seen of a node whose children are replaced** by others of which the same is seen. -/
theorem exists_rebuild_of_compositional (hview : Compositional view) (he : e.HasOperands)
    (h : ∀ c ∈ e.children, ∃ c', g c = some c' ∧ view c' = view c) :
    ∃ d, e.rebuild g = some d ∧ view d = view e := by
  obtain ⟨d, hd⟩ := exists_rebuild he fun c hc => (h c hc).imp fun _ h => h.1
  exact ⟨d, hd, hview hd h⟩

/-- A node is put together from its own children only if each of them is its own answer. -/
theorem rebuild_eq_self_iff :
    e.rebuild g = some e ↔ e.HasOperands ∧ ∀ c ∈ e.children, g c = some c := by
  refine ⟨fun h => ⟨(mapChildren_spec h).1, ?_⟩, fun h => rebuild_eq_self h.1 h.2⟩
  have hall {es : List Expr} (hes : es.filterMap g = es) : ∀ c ∈ es, g c = some c :=
    List.filterMap_eq_map_iff_forall_eq_some.1 (hes.trans (List.map_id es).symm)
  cases e with
  | word | phrase | regex | doi | url => exact nofun
  | group es =>
    exact hall (group.inj (eq_of_gather_eq_some (rebuild_group.symm.trans h)))
  | synonyms es =>
    exact hall (synonyms.inj (eq_of_gather_eq_some (rebuild_synonyms.symm.trans h)))
  | range left right il ir =>
    rw [rebuild_range] at h
    obtain ⟨left', hleft, h⟩ := Option.bind_eq_some_iff.1 h
    obtain ⟨right', hright, heq⟩ := Option.map_eq_some_iff.1 h
    cases heq
    simp [children, hleft, hright]
  | field | boost | fuzzy | proximity | plus | minus =>
    obtain ⟨body, hbody, heq⟩ := Option.map_eq_some_iff.1 h
    cases heq
    exact List.forall_mem_singleton.2 hbody

/-- The children of the new node are the answers. -/
theorem children_of_rebuild (hd : e.rebuild g = some d) :
    d.children = e.children.filterMap g := by
  cases e with
  | word | phrase | regex | doi | url =>
    cases hd
    rfl
  | group es =>
    cases eq_of_gather_eq_some (rebuild_group.symm.trans hd)
    rfl
  | synonyms es =>
    cases eq_of_gather_eq_some (rebuild_synonyms.symm.trans hd)
    rfl
  | range left right il ir =>
    rw [rebuild_range] at hd
    obtain ⟨left', hleft, hd⟩ := Option.bind_eq_some_iff.1 hd
    obtain ⟨right', hright, rfl⟩ := Option.map_eq_some_iff.1 hd
    simp [children, hleft, hright]
  | field | boost | fuzzy | proximity | plus | minus =>
    obtain ⟨body, hbody, rfl⟩ := Option.map_eq_some_iff.1 hd
    simp [children, hbody]

/-- The answer for a child is among the children of the new node. -/
theorem mem_children_of_rebuild {c c' : Expr} (hd : e.rebuild g = some d)
    (hc : c ∈ e.children) (hc' : g c = some c') : c' ∈ d.children := by
  rw [children_of_rebuild hd]
  exact List.mem_filterMap.2 ⟨c, hc, hc'⟩

theorem map_filterMap_of_view {es : List Expr}
    (h : ∀ c ∈ es, ∃ c', g c = some c' ∧ view c' = view c) :
    (es.filterMap g).map view = es.map view := by
  induction es with
  | nil => rfl
  | cons c es ih =>
    obtain ⟨c', hc', hsame⟩ := h c List.mem_cons_self
    rw [List.filterMap_cons_some hc', List.map_cons, List.map_cons, hsame,
      ih fun c hc => h c (List.mem_cons_of_mem _ hc)]

/-- The new children show, one by one, what the old ones showed. -/
theorem map_children_of_rebuild (hd : e.rebuild g = some d)
    (h : ∀ c ∈ e.children, ∃ c', g c = some c' ∧ view c' = view c) :
    d.children.map view = e.children.map view := by
  rw [children_of_rebuild hd]
  exact map_filterMap_of_view h

/-! ### Terms -/

/-- The kind of a node tells whether it is a term. -/
theorem value?_isSome_congr (h : d.kind = e.kind) : d.value?.isSome = e.value?.isSome := by
  cases e <;> cases d <;> first | rfl | cases h

theorem compositional_terms : Compositional terms := by
  intro e d g hd h
  have hkind : d.value?.isSome = e.value?.isSome := value?_isSome_congr (head_mapChildren hd).1
  by_cases hvalue : e.value?.isSome = true
  · have hsame : e.rebuild g = some e := by rw [rebuild, mapChildren_of_value?_isSome hvalue]
    cases hsame.symm.trans hd
    rfl
  · have hterm : e.value? = none := by simpa using hvalue
    have hterm' : d.value? = none := by simpa [hterm] using hkind
    rw [terms_of_value?_eq_none hterm, terms_of_value?_eq_none hterm', List.flatMap_def,
      List.flatMap_def, map_children_of_rebuild hd h]

end Expr

/-! ### Passes -/

/-- No node is removed, and its replacement shows what the node showed. -/
def Transform.Conserves (view : Expr → α) (f : Transform σ) : Prop :=
  ∀ e parents s, ∃ d, (f e parents s).1.tree? = some d ∧ view d = view e

theorem Pass.exists_fst_of_conserves {p : Pass σ} (hview : Compositional view)
    (hp : p.transform.Conserves view) (hfilled : p.transform.Preserves (FilledIn fun _ => True))
    (hstate : p.transform.KeepsView (id : σ → σ)) {e : Expr} (he : e.Filled)
    (parents : List Kind) (s : σ) :
    ∃ d, (p.parentsFirst parents e s).1 = some d ∧ view d = view e := by
  by_cases hignores : p.ignores e.kind = true
  · exact ⟨e, by rw [parentsFirst, if_pos hignores], rfl⟩
  have hkinds : p.ignores e.kind = false := by simpa using hignores
  obtain ⟨d, htree, hsame⟩ := hp e parents s
  have hd : d.Filled := (hfilled he.filledIn htree).filled
  cases houtcome : (p.transform e parents s).1 with
  | remove =>
    rw [houtcome] at htree
    cases htree
  | final d' =>
    rw [houtcome] at htree
    cases htree
    exact ⟨d, parentsFirst_of_final hkinds houtcome, hsame⟩
  | keep d' =>
    rw [houtcome] at htree
    cases htree
    have hchild (c : Expr) (hc : c ∈ d.children) : ∃ c',
        (p.parentsFirst (parents ++ [d.kind]) c s).1 = some c' ∧ view c' = view c := by
      have hrank : p.rank (parents ++ [d.kind]) c < p.rank parents e :=
        p.descends e parents s d houtcome c hc
      exact exists_fst_of_conserves hview hp hfilled hstate (hd.child hc) _ s
    obtain ⟨d', hd', hsame'⟩ := exists_rebuild_of_compositional hview hd.root hchild
    exact ⟨d', (parentsFirst_eq_rebuild hstate hkinds houtcome).trans hd', hsame'.trans hsame⟩
termination_by p.rank parents e

/-- **What the transformation conserves, the pass conserves**, and something is left. -/
theorem Pass.exists_parentsFirst_of_conserves {p : Pass σ} (hview : Compositional view)
    (hp : p.transform.Conserves view) (hfilled : p.transform.Preserves (FilledIn fun _ => True))
    (hstate : p.transform.KeepsView (id : σ → σ)) {e : Expr} (he : e.Filled)
    (parents : List Kind) (s : σ) :
    ∃ d, p.parentsFirst parents e s = (some d, s) ∧ d.Filled ∧ view d = view e := by
  obtain ⟨d, hd, hsame⟩ := exists_fst_of_conserves hview hp hfilled hstate he parents s
  have hd' : d.Filled := (parentsFirst_preserves hereditary_filledIn hfilled he.filledIn hd).filled
  exact ⟨d, (parentsFirst_eq hstate).trans (by rw [hd]), hd', hsame⟩

end SearchQuery
