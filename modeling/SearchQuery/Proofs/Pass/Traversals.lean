import SearchQuery.Proofs.Pass.Calls

/-!
# What traversals see

There are three ways through a tree: a look at its nodes, a pass that sees parents first, and a pass
that sees children first. A pass that changes nothing sees what a look sees. One that does change
the tree sees other nodes, but what it is told about where they stand is still right, and one stack
of kinds is enough to tell it, also after a node has been lost together with children that were
never looked at.

## Main results

* `traversals_agree` — what is seen by a look at a tree and by passes over it
-/

namespace SearchQuery

open SearchQuery.Expr

/-- **What traversals of a tree see.** With one stack of kinds, which is empty again afterwards, the
traversals do what they do when each call has a list of its own. In a tree without empty groups, a
look and a pass that keeps every node see the nodes that are not left out, each once and with the
kinds of all nodes above it, and the pass leaves the tree as it is. Any other pass is told the kinds
of the replacements, or of the nodes of the tree, on the way to what it is shown. -/
theorem traversals_agree (K : Kind → Bool) (e : Expr) :
    (∀ {τ : Type} (visit : Expr → List Kind → τ → τ) (t : τ), e.walkOnStack K visit ⟨[], t⟩ =
      ⟨[], (e.visits K).foldl (fun t v => visit v.1 v.2 t) t⟩) ∧
    e.Lists .parentsFirst K (e.visits K) ∧
    ∀ {σ : Type} (p : Pass σ) (s : σ),
      (∀ calls, p.rank [] e < calls → p.recorded.runOnStack calls e (s, []) =
        ((p.run e s).1, some ⟨[], (p.run e s).2, p.calls e s⟩)) ∧
      (e.Filled → p.KeepsNodes → p.ignores = K →
        (p.run e s).1 = some e ∧ e.Lists p.order K ((p.calls e s).map Call.seen) ∧
        (p.order = .parentsFirst → (p.calls e s).map Call.seen = e.visits K)) ∧
      (p.order = .parentsFirst → ∃ trail : Trail .parentsFirst (Call σ),
        trail.labels = p.calls e s ∧ p.FollowsReplacements [] e trail) ∧
      (p.order = .childrenFirst → ∃ trail : Trail .childrenFirst (Call σ),
        trail.labels = p.calls e s ∧ p.FollowsNodes [] e trail) := by
  have hvisits : (e.trail .parentsFirst K []).labels = e.visits K :=
    labels_trail_parentsFirst K [] e
  refine ⟨fun visit t => walkOnStack_eq K visit e [] t, ?_, fun p s => ⟨fun calls hcalls => ?_,
    fun he hp hK => ⟨?_, ?_, fun horder => ?_⟩, fun horder => ?_, fun horder => ?_⟩⟩
  · exact hvisits ▸ lists_labels_trail .parentsFirst K e
  · have hrank : p.recorded.rank [] e < calls := hcalls
    rw [Pass.runOnStack_eq hrank, Pass.run_recorded]
  · rw [Pass.run_eq_foldl hp he]
  · rw [Pass.map_seen_calls hp he, hK]
    exact lists_labels_trail p.order K e
  · rw [Pass.map_seen_calls hp he, hK, horder, hvisits]
  · obtain ⟨trail, hlabels, htrail⟩ := p.exists_followsReplacements [] e (s, [])
    refine ⟨trail, ?_, htrail⟩
    rw [Pass.calls, Pass.run, Pass.order_recorded, horder]
    exact hlabels.symm
  · obtain ⟨trail, hlabels, htrail⟩ := p.exists_followsNodes [] e (s, [])
    refine ⟨trail, ?_, htrail⟩
    rw [Pass.calls, Pass.run, Pass.order_recorded, horder]
    exact hlabels.symm

/-- A group with a range that loses its first bound, an excluded word and a required one. -/
def lostBound : Expr :=
  .group [.range (.word "drop") (.word "b") true true, .minus (.word "c"), .plus (.word "d")]

/-- The pass that counts nodes outside excluded operands. -/
def counting (o : Order) : Pass Nat :=
  (Pass.ofTransform o (fun e _ n => (.keep e, n + 1))
    (Transform.descends_of_keep_self fun _ _ _ _ h => (Outcome.keep.inj h).symm)).ignoring [.minus]

/-- A word of the text `drop` is removed. -/
def dropsWord : Transform Nat
  | .word "drop", _, n => (.remove, n)
  | e, _, n => (.keep e, n + 1)

theorem descends_dropsWord : dropsWord.Descends fun _ e => e.weight :=
  Transform.descends_of_keep_self fun e parents n e' h => by
    rw [dropsWord.eq_def] at h
    split at h
    · cases h
    · exact (Outcome.keep.inj h).symm

/-- The pass that removes the words of the text `drop` outside excluded operands, and counts the
other nodes. -/
def dropping (o : Order) : Pass Nat :=
  (Pass.ofTransform o dropsWord descends_dropsWord).ignoring [.minus]

/-- When the range is lost, its second bound has not been looked at, and what stands after it is
shown below the group all the same. -/
theorem traversals_agree_lostBound :
    lostBound.Filled ∧ (counting .childrenFirst).KeepsNodes ∧
    ((counting .childrenFirst).calls lostBound 0).map Call.seen =
      [(.word "drop", [.group, .range]), (.word "b", [.group, .range]),
        (.range (.word "drop") (.word "b") true true, [.group]), (.word "d", [.group, .plus]),
        (.plus (.word "d"), [.group]), (lostBound, [])] ∧
    lostBound.Lists .childrenFirst (fun kind => kind == .minus)
      (((counting .childrenFirst).calls lostBound 0).map Call.seen) ∧
    (dropping .parentsFirst).rank [] lostBound < 20 ∧
    ((dropping .parentsFirst).recorded.runOnStack 20 lostBound (0, [])).2.map Stacked.stack =
      some [] ∧
    ((dropping .parentsFirst).calls lostBound 0).map Call.seen =
      [(lostBound, []), (.range (.word "drop") (.word "b") true true, [.group]),
        (.word "drop", [.group, .range]), (.plus (.word "d"), [.group]),
        (.word "d", [.group, .plus])] ∧
    (∃ trail, trail.labels = (dropping .parentsFirst).calls lostBound 0 ∧
      (dropping .parentsFirst).FollowsReplacements [] lostBound trail) ∧
    ∃ trail, trail.labels = (dropping .childrenFirst).calls lostBound 0 ∧
      (dropping .childrenFirst).FollowsNodes [] lostBound trail := by
  have hfilled : lostBound.Filled := by
    simp [lostBound, Filled, HasOperands]
  have hcounting : (counting .childrenFirst).KeepsNodes := fun _ _ _ => rfl
  have hignores : (counting .childrenFirst).ignores = fun kind => kind == .minus := by
    funext kind
    cases kind <;> rfl
  have hrank : (dropping .parentsFirst).rank [] lostBound < 20 := by decide
  obtain ⟨-, -, hpasses⟩ := traversals_agree (fun kind => kind == .minus) lostBound
  obtain ⟨-, hall, -, -⟩ := hpasses (counting .childrenFirst) 0
  obtain ⟨hstack, -, hreplacements, -⟩ := hpasses (dropping .parentsFirst) 0
  obtain ⟨-, -, -, hnodes⟩ := hpasses (dropping .childrenFirst) 0
  obtain ⟨-, hlists, -⟩ := hall hfilled hcounting hignores
  refine ⟨hfilled, hcounting, by with_unfolding_all rfl, hlists, hrank, ?_,
    by with_unfolding_all rfl, hreplacements rfl, hnodes rfl⟩
  rw [hstack 20 hrank]
  rfl

end SearchQuery
