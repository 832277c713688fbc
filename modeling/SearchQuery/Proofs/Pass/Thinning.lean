import SearchQuery.Proofs.Pass.Filled

/-!
# Passes that only take nodes away

A pass over sort directives takes nodes away and leaves the others as they are. With a node goes
what is below it, and also what cannot do without it: every other node that has it for its only
child, or as a bound, and every group that has nothing else left.

## What is left

A node is left if the way to it is clear, no node on it being taken away, and if something is left
below it. Something is left of a tree if it reaches a term on a clear way; a filled tree has terms
below each of its nodes, so the two say the same of what is left. Ranges are no obstacle as long as
their bounds are terms that the pass does not take.

## Main definitions

* `Pass.Thins` — the pass takes some nodes away and leaves the others as they are

## Main results

* `Pass.Thins.exists_parentsFirst_of_reaches` — what stands on a clear way is left
* `Pass.Thins.reaches_of_parentsFirst` — what is left stood on a clear way
* `Pass.Thins.exists_run_reaches_iff` — the two together, for nodes of some kind or with some name
* `SortSettings.thins` — sort directives are taken away, and nothing else
-/

namespace SearchQuery

open SearchQuery.Expr

/-- A property of a node that depends only on its kind and on the name of its field. -/
def Expr.OfHead (P : Expr → Prop) : Prop :=
  ∀ ⦃e e' : Expr⦄, e'.kind = e.kind → e'.fieldName? = e.fieldName? → P e → P e'

/-- A filled tree has a term. -/
theorem Expr.Filled.reaches_term {e : Expr} (h : e.Filled) :
    e.Reaches (fun _ => False) fun d => d.value?.isSome = true := by
  induction h with
  | @intro e root below ih =>
    cases e with
    | word | phrase | regex | doi | url => exact .here id rfl
    | group es | synonyms es =>
      obtain ⟨c, hc⟩ := List.exists_mem_of_ne_nil es root
      exact .there id hc (ih c hc)
    | range left right il ir => exact .there id List.mem_cons_self (ih left List.mem_cons_self)
    | field | boost | fuzzy | proximity | plus | minus =>
      exact .there id List.mem_cons_self (ih _ List.mem_cons_self)

theorem Expr.ofHead_value?_isSome : OfHead fun e => e.value?.isSome = true := by
  intro e e' hkind _ h
  cases e with
  | word | phrase | regex | doi | url => cases e' <;> first | rfl | cases hkind
  | _ => cases h

variable {σ : Type} {gone P : Expr → Prop}

/-- The pass takes some nodes away, none of them a term, and leaves the others as they are. -/
structure Pass.Thins (gone : Expr → Prop) (p : Pass σ) : Prop where
  /-- A node is looked at before its children. -/
  order : p.order = .parentsFirst
  /-- Every node is looked at. -/
  ignores : ∀ kind, p.ignores kind = false
  /-- Some nodes are taken away. -/
  remove : ∀ {e}, gone e → ∀ parents s, ∃ t, p.transform e parents s = (.remove, t)
  /-- The others stay. -/
  keep : ∀ {e}, ¬ gone e → ∀ parents s, ∃ t, p.transform e parents s = (.keep e, t)
  /-- Terms stay. -/
  term : ∀ {e : Expr}, e.value?.isSome = true → ¬ gone e

namespace Pass.Thins

variable {p : Pass σ} {e e' : Expr} {parents : List Kind} {s : σ}

theorem not_gone_of_parentsFirst (hp : p.Thins gone)
    (h : (p.parentsFirst parents e s).1 = some e') : ¬ gone e := by
  intro hgone
  obtain ⟨t, htransform⟩ := hp.remove hgone parents s
  rw [parentsFirst_of_remove (hp.ignores _) htransform] at h
  cases h

theorem exists_parentsFirst_eq (hp : p.Thins gone) (h : ¬ gone e) (parents : List Kind) (s : σ) :
    ∃ t, p.parentsFirst parents e s =
      e.mapChildren (fun c _ s => p.parentsFirst (parents ++ [e.kind]) c s) t := by
  obtain ⟨t, htransform⟩ := hp.keep h parents s
  exact ⟨t, parentsFirst_of_keep (hp.ignores _) htransform⟩

/-! ### Terms and ranges -/

theorem parentsFirst_term (hp : p.Thins gone) (h : e.value?.isSome = true) (parents : List Kind)
    (s : σ) : (p.parentsFirst parents e s).1 = some e := by
  obtain ⟨t, ht⟩ := hp.exists_parentsFirst_eq (hp.term h) parents s
  rw [ht, mapChildren_of_value?_isSome h]

/-- A range of terms stays as it is. -/
theorem parentsFirst_range (hp : p.Thins gone) (hkind : e.kind = .range) (hgone : ¬ gone e)
    (hbounds : e.BoundsAreTerms) (parents : List Kind) (s : σ) :
    (p.parentsFirst parents e s).1 = some e := by
  obtain ⟨t, ht⟩ := hp.exists_parentsFirst_eq hgone parents s
  have hoperands : e.HasOperands :=
    hasOperands_of_kind (by rw [hkind]; exact Kind.noConfusion)
      (by rw [hkind]; exact Kind.noConfusion)
  rw [ht]
  exact mapChildren_eq_self hoperands fun c hc t =>
    hp.parentsFirst_term (hbounds.root hkind c hc) _ t

/-! ### What is left of a tree -/

/-- A node on a clear way is left, in whatever state, if what becomes of the node that is reached is
known. -/
theorem exists_parentsFirst_of_reaches (hp : p.Thins gone) {Q : Expr → Prop}
    (hPQ : ∀ d, P d → Q d)
    (hbase : ∀ d, P d → ¬ gone d → d.BoundsAreTerms → ∀ parents s,
      ∃ d', (p.parentsFirst parents d s).1 = some d' ∧ d'.Reaches (fun _ => False) Q)
    (hbounds : e.BoundsAreTerms) (h : e.Reaches gone P) (parents : List Kind) (s : σ) :
    ∃ e', (p.parentsFirst parents e s).1 = some e' ∧ e'.Reaches (fun _ => False) Q := by
  induction h generalizing parents s with
  | here hgone hP => exact hbase _ hP hgone hbounds parents s
  | @there e c hgone hc h ih =>
    by_cases hkind : e.kind = .range
    · refine ⟨e, hp.parentsFirst_range hkind hgone hbounds parents s, ?_⟩
      exact .there id hc (h.imp (fun _ => False.elim) hPQ)
    · obtain ⟨t, ht⟩ := hp.exists_parentsFirst_eq hgone parents s
      have hchild : ∀ t, ∃ d, (p.parentsFirst (parents ++ [e.kind]) c t).1 = some d ∧
          d.Reaches (fun _ => False) Q := ih (hbounds.child hc) (parents ++ [e.kind])
      rw [ht]
      obtain ⟨e', he', d, hd, hQ⟩ := exists_mapChildren_of_mem (s := t)
        (f := fun c _ s => p.parentsFirst (parents ++ [e.kind]) c s) hkind hc fun _ => hchild
      exact ⟨e', he', .there id hd hQ⟩

/-- Something is left of a tree that has a term on a clear way. -/
theorem exists_parentsFirst (hp : p.Thins gone) (hbounds : e.BoundsAreTerms)
    (h : e.Reaches gone fun d => d.value?.isSome = true) (parents : List Kind) (s : σ) :
    ∃ e', (p.parentsFirst parents e s).1 = some e' := by
  obtain ⟨e', he', -⟩ := hp.exists_parentsFirst_of_reaches (fun _ hd => hd)
    (fun d hd _ _ parents s => ⟨d, hp.parentsFirst_term hd parents s, .here id hd⟩) hbounds h
    parents s
  exact ⟨e', he'⟩

/-- What is found in what is left of a tree was there, on a clear way, and something was left of
it. -/
theorem reaches_of_parentsFirst (hp : p.Thins gone) (hP : OfHead P) {e e' : Expr}
    {parents : List Kind} {s : σ} (h : (p.parentsFirst parents e s).1 = some e')
    (he' : e'.Reaches (fun _ => False) P) :
    e.Reaches gone fun d => P d ∧ ∃ parents s d', (p.parentsFirst parents d s).1 = some d' := by
  have hgone : ¬ gone e := hp.not_gone_of_parentsFirst h
  obtain ⟨t, ht⟩ := hp.exists_parentsFirst_eq hgone parents s
  have hmap := h
  rw [ht] at hmap
  obtain ⟨hkind, hname⟩ := head_mapChildren hmap
  cases he' with
  | here _ hroot => exact .here hgone ⟨hP hkind.symm hname.symm hroot, parents, s, e', h⟩
  | there _ hd hreaches =>
    obtain ⟨c, hc, t', hrun⟩ := (mapChildren_spec hmap).2 _ hd
    have hsize : sizeOf c < sizeOf e := sizeOf_lt_of_mem_children hc
    exact .there hgone hc (hp.reaches_of_parentsFirst hP hrun hreaches)
termination_by sizeOf e

theorem preserves (hp : p.Thins gone) : p.transform.Preserves P := by
  refine Transform.preserves_of_tree?_eq fun e parents s e' h => ?_
  by_cases hgone : gone e
  · obtain ⟨t, htransform⟩ := hp.remove hgone parents s
    rw [htransform] at h
    cases h
  · obtain ⟨t, htransform⟩ := hp.keep hgone parents s
    rw [htransform] at h
    exact (Option.some.inj h).symm

/-- If anything is left of a filled tree, a term was there on a clear way. -/
theorem reaches_term_of_parentsFirst (hp : p.Thins gone) (he : e.Filled)
    (h : (p.parentsFirst parents e s).1 = some e') :
    e.Reaches gone fun d => d.value?.isSome = true := by
  have hfilled : e'.Filled :=
    (parentsFirst_preserves hereditary_filledIn hp.preserves he.filledIn h).filled
  exact (hp.reaches_of_parentsFirst ofHead_value?_isSome h hfilled.reaches_term).imp
    (fun _ => id) fun _ hd => hd.1

/-- **What is found in what is left of a tree.** A node of some kind, or with some name, is found in
what is left of a filled tree if and only if it stands in the tree on a clear way and has a term on
a clear way itself. -/
theorem exists_run_reaches_iff (hp : p.Thins gone) (hP : OfHead P) (he : e.Filled)
    (hbounds : e.BoundsAreTerms) (s : σ) :
    (∃ e', (p.run e s).1 = some e' ∧ e'.Reaches (fun _ => False) P) ↔
      e.Reaches gone fun d => P d ∧ d.Reaches gone fun c => c.value?.isSome = true := by
  rw [run, hp.order]
  constructor
  · rintro ⟨e', hrun, hreaches⟩
    refine ((hp.reaches_of_parentsFirst hP hrun hreaches).and_all he).imp (fun _ => id) ?_
    rintro d ⟨⟨hd, parents, t, d', hleft⟩, hfilled⟩
    exact ⟨hd, hp.reaches_term_of_parentsFirst hfilled hleft⟩
  · intro h
    refine hp.exists_parentsFirst_of_reaches (fun d hd => hd.1) ?_ hbounds h [] s
    rintro d ⟨hd, hterm⟩ hgone hdbounds parents t
    obtain ⟨d', hd'⟩ := hp.exists_parentsFirst hdbounds hterm parents t
    obtain ⟨t', ht'⟩ := hp.exists_parentsFirst_eq hgone parents t
    have hmap := hd'
    rw [ht'] at hmap
    obtain ⟨hkind, hname⟩ := head_mapChildren hmap
    exact ⟨d', hd', .here id (hP hkind hname hd)⟩

/-- The bounds of the ranges that are left are terms, because a range of terms stays as it is. -/
theorem boundsAreTerms_of_parentsFirst (hp : p.Thins gone) {e e' : Expr} {parents : List Kind}
    {s : σ} (hbounds : e.BoundsAreTerms) (h : (p.parentsFirst parents e s).1 = some e') :
    e'.BoundsAreTerms := by
  have hgone : ¬ gone e := hp.not_gone_of_parentsFirst h
  by_cases hrange : e.kind = .range
  · rw [hp.parentsFirst_range hrange hgone hbounds] at h
    exact Option.some.inj h ▸ hbounds
  · obtain ⟨t, ht⟩ := hp.exists_parentsFirst_eq hgone parents s
    rw [ht] at h
    refine ⟨fun hkind => absurd ((head_mapChildren h).1 ▸ hkind) hrange, fun d hd => ?_⟩
    obtain ⟨c, hc, t', hrun⟩ := (mapChildren_spec h).2 d hd
    have hsize : sizeOf c < sizeOf e := sizeOf_lt_of_mem_children hc
    exact hp.boundsAreTerms_of_parentsFirst (hbounds.child hc) hrun
termination_by sizeOf e

theorem boundsAreTerms_of_run (hp : p.Thins gone) (hbounds : e.BoundsAreTerms)
    (h : (p.run e s).1 = some e') : e'.BoundsAreTerms := by
  rw [run, hp.order] at h
  exact hp.boundsAreTerms_of_parentsFirst hbounds h

end Pass.Thins

/-! ### Sort directives -/

/-- **Sort directives are taken away, and nothing else.** A directive is a search in a field, so no
term is taken. -/
theorem SortSettings.thins (s : SortSettings) :
    (Pass.sorting s).Thins fun e => (s.directive? e).isSome = true where
  order := rfl
  ignores _ := rfl
  remove hgone parents c := by
    obtain ⟨field, hdirective⟩ := Option.isSome_iff_exists.1 hgone
    exact ⟨_, by simp only [Pass.sorting, Pass.ofTransform, transform, hdirective]; rfl⟩
  keep hgone parents c := by
    have hnone := Option.not_isSome_iff_eq_none.1 hgone
    exact ⟨c, by simp only [Pass.sorting, Pass.ofTransform, transform, hnone]⟩
  term hterm hgone := by
    rename_i e
    cases e with
    | field => cases hterm
    | _ => cases hgone

end SearchQuery
