import SearchQuery.Proofs.Pass.Conservation

/-!
# Passes that replace terms

A pass that keeps every inner node looks at all nodes of a tree, each with what stands around it in
the tree, and puts something else in the place of the terms. What it leaves and what it notes can
then be said without running it: the tree with each term replaced where it stands, and the notes
of the nodes one after the other.

## Lost bounds

A range is lost with its first bound, and then the second one is not looked at. What would have been
noted there is missing, so such ranges have to be excluded. In a tree without empty groups there are
none, and they do no harm either where nothing is noted.

## Main definitions

* `Expr.places` — the nodes of a tree, with what stands around them
* `Expr.replaceTerms` — the tree with its terms replaced where they stand
* `Transform.Substitutes` — a transformation that replaces terms only

## Main results

* `Expr.mapChildren_eq_foldl` — replacing children when each of them changes the state
* `Pass.parentsFirst_eq_replaceTerms` — what is left of a tree, and what is noted
-/

namespace SearchQuery

open SearchQuery.Expr

variable {σ : Type}

namespace Expr

variable {e d : Expr} {f f' : Expr → List Kind → Expr} {parents : List Kind}

/-! ### Places -/

/-- The nodes of a tree that stands below `parents`, each with the kinds of the nodes around it. -/
def places (parents : List Kind) (e : Expr) : List (Expr × List Kind) :=
  e.visitsBelow (fun _ => false) parents

theorem places_eq (parents : List Kind) (e : Expr) :
    e.places parents = (e, parents) :: e.children.flatMap (places (parents ++ [e.kind])) := by
  rw [places, visitsBelow_eq, if_neg (by simp)]
  rfl

theorem self_mem_places (parents : List Kind) (e : Expr) : (e, parents) ∈ e.places parents := by
  rw [places_eq]
  exact List.mem_cons_self

theorem mem_places_of_mem_children {c : Expr} {v : Expr × List Kind} (hc : c ∈ e.children)
    (hv : v ∈ c.places (parents ++ [e.kind])) : v ∈ e.places parents := by
  rw [places_eq]
  exact List.mem_cons_of_mem _ (List.mem_flatMap.2 ⟨c, hc, hv⟩)

/-- A node is found at the root of a tree or below it, with the root around it. -/
theorem eq_or_prefix_of_mem_places {e : Expr} {parents : List Kind} {v : Expr × List Kind}
    (hv : v ∈ e.places parents) : v = (e, parents) ∨ parents ++ [e.kind] <+: v.2 := by
  rw [places_eq] at hv
  rcases List.mem_cons.1 hv with rfl | hv
  · exact .inl rfl
  · obtain ⟨c, hc, hv⟩ := List.mem_flatMap.1 hv
    have hsize : sizeOf c < sizeOf e := sizeOf_lt_of_mem_children hc
    rcases eq_or_prefix_of_mem_places hv with rfl | hbelow
    · exact .inr List.prefix_rfl
    · exact .inr ((List.prefix_append _ _).trans hbelow)
termination_by sizeOf e

/-- What is found in a part of a tree is found in the tree. -/
theorem mem_places_trans {e : Expr} {parents : List Kind} {v w : Expr × List Kind}
    (hv : v ∈ e.places parents) (hw : w ∈ v.1.places v.2) : w ∈ e.places parents := by
  rw [places_eq] at hv
  rcases List.mem_cons.1 hv with rfl | hv
  · exact hw
  · obtain ⟨c, hc, hv⟩ := List.mem_flatMap.1 hv
    have hsize : sizeOf c < sizeOf e := sizeOf_lt_of_mem_children hc
    exact mem_places_of_mem_children hc (mem_places_trans hv hw)
termination_by sizeOf e

theorem All.of_mem_places {P : Expr → Prop} (h : e.All P) {v : Expr × List Kind}
    (hv : v ∈ e.places parents) : v.1.All P := by
  induction h generalizing parents with
  | @intro e root below ih =>
    rw [places_eq] at hv
    rcases List.mem_cons.1 hv with rfl | hv
    · exact ⟨root, below⟩
    · obtain ⟨c, hc, hv⟩ := List.mem_flatMap.1 hv
      exact ih c hc hv

/-! ### Terms in their places -/

/-- The tree with each term replaced where it stands. A group is left out with its last operand, and
any other node with a child. -/
def replaceTerms (f : Expr → List Kind → Expr) (parents : List Kind) (e : Expr) : Option Expr :=
  if e.value?.isSome then some (f e parents)
  else (e.mapChildren (fun c _ u => (c.replaceTerms f (parents ++ [e.kind]), u)) ()).1
termination_by sizeOf e
decreasing_by exact sizeOf_lt_of_mem_children ‹_›

theorem replaceTerms_of_value?_isSome (h : e.value?.isSome = true) :
    e.replaceTerms f parents = some (f e parents) := by
  rw [replaceTerms, if_pos h]

theorem replaceTerms_of_value?_eq_none (h : e.value? = none) :
    e.replaceTerms f parents = e.rebuild (replaceTerms f (parents ++ [e.kind])) := by
  rw [replaceTerms, if_neg (by simp [h])]
  rfl

theorem Filled.exists_replaceTerms (he : e.Filled) (f : Expr → List Kind → Expr)
    (parents : List Kind) : ∃ d, e.replaceTerms f parents = some d := by
  induction he generalizing parents with
  | @intro e root _ ih =>
    cases hvalue : e.value? with
    | some => exact ⟨_, replaceTerms_of_value?_isSome (by simp [hvalue])⟩
    | none =>
      rw [replaceTerms_of_value?_eq_none hvalue]
      exact exists_rebuild root fun c hc => ih c hc _

/-- Only what becomes of the terms of the tree counts. -/
theorem replaceTerms_congr {e : Expr} {parents : List Kind}
    (h : ∀ v ∈ e.places parents, v.1.value?.isSome = true → f v.1 v.2 = f' v.1 v.2) :
    e.replaceTerms f parents = e.replaceTerms f' parents := by
  cases hvalue : e.value? with
  | some =>
    have hterm : e.value?.isSome = true := by simp [hvalue]
    rw [replaceTerms_of_value?_isSome hterm, replaceTerms_of_value?_isSome hterm,
      h _ (self_mem_places parents e) hterm]
  | none =>
    rw [replaceTerms_of_value?_eq_none hvalue, replaceTerms_of_value?_eq_none hvalue]
    refine rebuild_congr fun c hc => ?_
    have hsize : sizeOf c < sizeOf e := sizeOf_lt_of_mem_children hc
    exact replaceTerms_congr fun v hv => h v (mem_places_of_mem_children hc hv)
termination_by sizeOf e

/-! ### Children that change the state -/

variable {g : Expr → Option Expr} {next : Expr → σ → σ} {s : σ}

theorem collect_eq_foldl {es : List Expr} {f : (c : Expr) → c ∈ es → σ → Option Expr × σ}
    (h : ∀ c hc s, f c hc s = (g c, next c s)) :
    collect es f s = (es.filterMap g, es.foldl (fun s c => next c s) s) := by
  induction es generalizing s with
  | nil => rfl
  | cons e es ih =>
    have hrest := @ih (next e s) (fun c hc => f c (List.mem_cons_of_mem e hc)) fun c hc => h c _
    rw [collect, h]
    simp only [hrest]
    cases he : g e <;> simp [he]

/-- **Replacing the children of a node when each of them changes the state.** The second bound of a
range is not asked for if there is no answer for the first one, so it must not change the state
then. -/
theorem mapChildren_eq_foldl {f : (c : Expr) → c ∈ e.children → σ → Option Expr × σ}
    (h : ∀ c hc s, f c hc s = (g c, next c s))
    (hlost : ∀ left right il ir, e = range left right il ir → g left = none →
      ∀ s, next right (next left s) = next left s) :
    e.mapChildren f s = (e.rebuild g, e.children.foldl (fun s c => next c s) s) := by
  cases e with
  | word | phrase | regex | doi | url => rfl
  | group es =>
    have hcollect : collect es f s = (es.filterMap g, es.foldl (fun s c => next c s) s) :=
      collect_eq_foldl h
    rw [mapChildren, hcollect, rebuild_group]
    cases es.filterMap g <;> rfl
  | synonyms es =>
    have hcollect : collect es f s = (es.filterMap g, es.foldl (fun s c => next c s) s) :=
      collect_eq_foldl h
    rw [mapChildren, hcollect, rebuild_synonyms]
    cases es.filterMap g <;> rfl
  | range left right il ir =>
    rw [mapChildren, h left (by simp [children]), rebuild_range]
    cases hleft : g left with
    | none =>
      have hsame := hlost left right il ir rfl hleft s
      simp [children, hsame]
    | some =>
      have hright := h right (by simp [children])
      simp [children, hright]
  | field | boost | fuzzy | proximity | plus | minus =>
    rw [mapChildren, h _ (List.mem_singleton_self _)]
    rfl

end Expr

/-! ### Passes -/

/-- A term is replaced by something that is left alone or by another term, and any other node is
kept as it is. -/
structure Transform.Substitutes (t : Transform σ) (f : Expr → List Kind → Expr) : Prop where
  /-- What becomes of a term. -/
  term : ∀ e parents s, e.value?.isSome = true → (t e parents s).1 = .final (f e parents) ∨
    (t e parents s).1 = .keep (f e parents) ∧ (f e parents).value?.isSome = true
  /-- What becomes of any other node. -/
  node : ∀ e parents s, e.value? = none → (t e parents s).1 = .keep e

namespace Pass

variable {p : Pass σ} {f : Expr → List Kind → Expr}

/-- What a pass notes at a node. -/
def noteAt (p : Pass σ) (s : σ) (v : Expr × List Kind) : σ := (p.transform v.1 v.2 s).2

/-- Nothing is noted at the nodes of a tree. -/
def IsQuietAt (p : Pass σ) (parents : List Kind) (e : Expr) : Prop :=
  ∀ v ∈ e.places parents, ∀ s, p.noteAt s v = s

theorem IsQuietAt.foldl_eq {parents : List Kind} {e : Expr} (h : p.IsQuietAt parents e) (s : σ) :
    (e.places parents).foldl p.noteAt s = s :=
  (List.foldl_ext _ (fun s _ => s) s fun s v hv => h v hv s).trans (List.foldl_fixed _)

/-- **What a pass that replaces terms leaves of a tree, and what it notes.** -/
theorem parentsFirst_eq_replaceTerms (hignores : ∀ k, p.ignores k = false)
    (hp : p.transform.Substitutes f) {parents : List Kind} {e : Expr}
    (hranges : ∀ v ∈ e.places parents, v.1.kind = .range → v.1.Filled ∨ p.IsQuietAt v.2 v.1)
    (s : σ) :
    p.parentsFirst parents e s =
      (e.replaceTerms f parents, (e.places parents).foldl p.noteAt s) := by
  rw [places_eq, List.foldl_cons]
  cases hvalue : e.value? with
  | some =>
    have hterm : e.value?.isSome = true := by simp [hvalue]
    rw [children_of_value?_isSome hterm, replaceTerms_of_value?_isSome hterm]
    rcases hp.term e parents s hterm with hfinal | ⟨hkeep, hnew⟩
    · rw [parentsFirst_eq_of_final (hignores _) hfinal]
      rfl
    · rw [parentsFirst_of_keep (hignores _) (Prod.ext hkeep rfl),
        mapChildren_of_value?_isSome hnew]
      rfl
  | none =>
    have hkeep : p.transform e parents s = (.keep e, p.noteAt s (e, parents)) :=
      Prod.ext (hp.node e parents s hvalue) rfl
    have hchildren : e.mapChildren (fun c _ s => p.parentsFirst (parents ++ [e.kind]) c s)
        (p.noteAt s (e, parents)) = (e.rebuild (replaceTerms f (parents ++ [e.kind])),
          e.children.foldl (fun s c => (c.places (parents ++ [e.kind])).foldl p.noteAt s)
            (p.noteAt s (e, parents))) := by
      refine mapChildren_eq_foldl (fun c hc s => ?_) fun left right il ir he hleft s => ?_
      · have hsize : sizeOf c < sizeOf e := sizeOf_lt_of_mem_children hc
        exact parentsFirst_eq_replaceTerms hignores hp
          (fun v hv => hranges v (mem_places_of_mem_children hc hv)) s
      · subst he
        rcases hranges _ (self_mem_places _ _) rfl with hfilled | hquiet
        · have hbound : left.Filled := hfilled.child (by simp [children])
          obtain ⟨d, hd⟩ :=
            hbound.exists_replaceTerms f (parents ++ [(range left right il ir).kind])
          cases hd.symm.trans hleft
        · have hbound : p.IsQuietAt (parents ++ [(range left right il ir).kind]) right :=
            fun v hv => hquiet v (mem_places_of_mem_children (by simp [children]) hv)
          exact hbound.foldl_eq _
    rw [parentsFirst_of_keep (hignores _) hkeep, hchildren,
      replaceTerms_of_value?_eq_none hvalue, List.foldl_flatMap]
termination_by sizeOf e

end Pass

end SearchQuery
