import SearchQuery.Proofs.Tree.Terms

/-!
# Where the nodes of a tree stand

The same word may stand in a tree more than once, so a node is known by its address and not by what
it holds: the positions of the children by which one comes from the root to it. What stands above it
is then a matter of the address as well.

## Trails

Whatever goes through a tree meets nodes one after the other. That it comes to no address twice, to
siblings from left to right, and to a node before (or after) what is below it is one condition on
each two addresses, and a trail is a list of what is met that satisfies it. The trail of a node is
made of the trails of its children, which is how trails are built along the recursion of a tree.

## Main definitions

* `Expr.IsAt` — the node at an address, and the nodes above it
* `Order.Before` — which of two addresses comes first
* `Trail` — what is met at addresses that come one after the other
* `Expr.trail` — the nodes of a tree without those of some kinds and what is below them
* `Expr.Lists` — a list of all nodes of a tree that are not left out, each once and in order

## Main results

* `Trail.mem_node` — what is on the trail of a node
* `Expr.mem_trail_iff` — the nodes that are not left out are those with nothing of these kinds above
* `Expr.labels_trail_parentsFirst` — a look at a tree finds the nodes of the trail
-/

namespace SearchQuery

/-! ### Addresses -/

/-- At an address of a tree stands a node, below others, which are given outermost first. -/
inductive Expr.IsAt : Expr → List Nat → List Expr → Expr → Prop where
  /-- The root of the tree. -/
  | here {e : Expr} : IsAt e [] [] e
  /-- A node in a child. -/
  | child {e c d : Expr} {i : Nat} {a : List Nat} {above : List Expr} (hc : e.children[i]? = some c)
      (h : IsAt c a above d) : IsAt e (i :: a) (e :: above) d

/-- Which of two addresses comes first. Siblings come from left to right in either order. -/
inductive Order.Before : Order → List Nat → List Nat → Prop where
  /-- A node comes before what is below it. -/
  | nodeFirst {i : Nat} {a : List Nat} : Before .parentsFirst [] (i :: a)
  /-- A node comes after what is below it. -/
  | nodeLast {i : Nat} {a : List Nat} : Before .childrenFirst (i :: a) []
  /-- What is below a node comes before what is below its siblings to the right. -/
  | left {o : Order} {i j : Nat} {a b : List Nat} (h : i < j) : Before o (i :: a) (j :: b)
  /-- Below one child. -/
  | inside {o : Order} {i : Nat} {a b : List Nat} (h : Before o a b) : Before o (i :: a) (i :: b)

theorem Order.Before.ne {o : Order} {a b : List Nat} (h : o.Before a b) : a ≠ b := by
  induction h with
  | nodeFirst => exact (List.cons_ne_nil _ _).symm
  | nodeLast => exact List.cons_ne_nil _ _
  | left h =>
    rintro ⟨⟩
    exact Nat.lt_irrefl _ h
  | inside _ ih =>
    rintro ⟨⟩
    exact ih rfl

variable {o : Order} {α : Type}

/-- What is met at a node, if anything, put before or after what is met below it. -/
def Order.place (o : Order) (x? : Option α) (below : List α) : List α :=
  match o with
  | .parentsFirst => x?.toList ++ below
  | .childrenFirst => below ++ x?.toList

theorem Order.mem_place {x? : Option α} {below : List α} {y : α} :
    y ∈ o.place x? below ↔ x? = some y ∨ y ∈ below := by
  cases o <;> simp [place, or_comm]

theorem Order.map_place {β : Type} (f : α → β) (x? : Option α) (below : List α) :
    (o.place x? below).map f = o.place (x?.map f) (below.map f) := by
  cases o <;> cases x? <;> simp [place]

/-! ### Trails -/

/-- What is met at addresses that come one after the other. -/
structure Trail (o : Order) (α : Type) where
  /-- What is met, and where. -/
  entries : List (List Nat × α)
  /-- No address comes twice or too late. -/
  ordered : entries.Pairwise fun v w => o.Before v.1 w.1

namespace Trail

variable {ts : List (Trail o α)} {t : Trail o α} {x? : Option α} {x : α} {a : List Nat} {i : Nat}

/-- What is met, without the addresses. -/
def labels (t : Trail o α) : List α := t.entries.map (·.2)

/-- No address is met twice. -/
theorem nodup_addresses (t : Trail o α) : (t.entries.map (·.1)).Nodup :=
  List.pairwise_map.2 (t.ordered.imp Order.Before.ne)

/-- What is met in the trees of a list, of which the first is child `i` of a node. -/
def entriesFrom : (i : Nat) → List (Trail o α) → List (List Nat × α)
  | _, [] => []
  | i, t :: ts => t.entries.map (Prod.map (i :: ·) id) ++ entriesFrom (i + 1) ts

theorem mem_entriesFrom {v : List Nat × α} :
    v ∈ entriesFrom i ts ↔
      ∃ j t a, ts[j]? = some t ∧ v.1 = (i + j) :: a ∧ (a, v.2) ∈ t.entries := by
  induction ts generalizing i with
  | nil => simp [entriesFrom]
  | cons t ts ih =>
    rw [entriesFrom, List.mem_append, List.mem_map, ih]
    constructor
    · rintro (⟨w, hw, rfl⟩ | ⟨j, t', a, hj, ha, hmem⟩)
      · exact ⟨0, t, w.1, rfl, rfl, hw⟩
      · exact ⟨j + 1, t', a, hj, by rw [ha, Nat.add_right_comm, Nat.add_assoc], hmem⟩
    · rintro ⟨_ | j, t', a, hj, ha, hmem⟩
      · cases hj
        exact .inl ⟨_, hmem, Prod.ext ha.symm rfl⟩
      · exact .inr ⟨j, t', a, hj, by rw [ha, Nat.add_right_comm, Nat.add_assoc], hmem⟩

theorem labels_entriesFrom : (entriesFrom i ts).map (·.2) = ts.flatMap labels := by
  induction ts generalizing i with
  | nil => rfl
  | cons t ts ih =>
    rw [entriesFrom, List.map_append, ih, List.map_map, List.flatMap_cons]
    rfl

theorem ordered_entriesFrom : (entriesFrom i ts).Pairwise fun v w => o.Before v.1 w.1 := by
  induction ts generalizing i with
  | nil => exact .nil
  | cons t ts ih =>
    rw [entriesFrom, List.pairwise_append, List.pairwise_map]
    refine ⟨t.ordered.imp .inside, ih, fun v hv w hw => ?_⟩
    obtain ⟨v, -, rfl⟩ := List.mem_map.1 hv
    obtain ⟨j, -, a, -, ha, -⟩ := mem_entriesFrom.1 hw
    rw [ha]
    exact .left (by omega)

theorem ordered_place (x? : Option α) (ts : List (Trail o α)) :
    (o.place (x?.map ([], ·)) (entriesFrom 0 ts)).Pairwise fun v w => o.Before v.1 w.1 := by
  have hbelow (v : List Nat × α) (hv : v ∈ entriesFrom 0 ts) : ∃ i a, v.1 = i :: a := by
    obtain ⟨j, -, a, -, ha, -⟩ := mem_entriesFrom.1 hv
    exact ⟨_, a, ha⟩
  cases x? with
  | none => cases o <;> simpa [Order.place] using ordered_entriesFrom
  | some x =>
    cases o with
    | parentsFirst =>
      refine List.pairwise_cons.2 ⟨fun v hv => ?_, ordered_entriesFrom⟩
      obtain ⟨i, a, ha⟩ := hbelow v hv
      rw [ha]
      exact .nodeFirst
    | childrenFirst =>
      refine List.pairwise_append.2 ⟨ordered_entriesFrom, List.pairwise_singleton _ _, ?_⟩
      intro v hv w hw
      obtain ⟨i, a, ha⟩ := hbelow v hv
      cases List.mem_singleton.1 hw
      rw [ha]
      exact .nodeLast

/-- The trail of a node: what is met at it, if anything, and the trails of its children. -/
def node (x? : Option α) (ts : List (Trail o α)) : Trail o α :=
  ⟨o.place (x?.map ([], ·)) (entriesFrom 0 ts), ordered_place x? ts⟩

/-- **What is on the trail of a node**: what is met at it, and what is on the trails of its
children. -/
theorem mem_node : (a, x) ∈ (node x? ts).entries ↔
    a = [] ∧ x? = some x ∨ ∃ i b t, a = i :: b ∧ ts[i]? = some t ∧ (b, x) ∈ t.entries := by
  rw [node, Order.mem_place, mem_entriesFrom]
  refine or_congr ⟨fun h => ?_, ?_⟩ ⟨?_, ?_⟩
  · obtain ⟨y, hy, heq⟩ := Option.map_eq_some_iff.1 h
    cases heq
    exact ⟨rfl, hy⟩
  · rintro ⟨rfl, rfl⟩
    rfl
  · rintro ⟨j, t, b, ht, ha, hmem⟩
    exact ⟨j, b, t, ha.trans (by rw [Nat.zero_add]), ht, hmem⟩
  · rintro ⟨j, b, t, ha, ht, hmem⟩
    exact ⟨j, t, b, ht, ha.trans (by rw [Nat.zero_add]), hmem⟩

@[simp] theorem entries_nothing : (node none [] : Trail o α).entries = [] := by
  cases o <;> rfl

theorem labels_node : (node x? ts).labels = o.place x? (ts.flatMap labels) := by
  rw [labels, node, Order.map_place, labels_entriesFrom, Option.map_map]
  cases x? <;> rfl

end Trail

/-! ### The nodes of a tree -/

namespace Expr

variable {e d : Expr} {prunes : Kind → Bool} {parents : List Kind} {a : List Nat} {i : Nat}
  {above : List Expr} {v : Expr × List Kind}

theorem IsAt.of_nil (h : e.IsAt [] above d) : above = [] ∧ d = e := by
  cases h
  exact ⟨rfl, rfl⟩

theorem IsAt.of_cons (h : e.IsAt (i :: a) above d) :
    ∃ c above', e.children[i]? = some c ∧ above = e :: above' ∧ c.IsAt a above' d := by
  cases h with
  | child hc h => exact ⟨_, _, hc, rfl, h⟩

/-- The nodes of a tree that stands below `parents`, each with the kinds of the nodes around it,
without those of the kinds that `prunes` names and what is below them. -/
def trail (o : Order) (prunes : Kind → Bool) (parents : List Kind) (e : Expr) :
    Trail o (Expr × List Kind) :=
  if prunes e.kind then .node none []
  else .node (some (e, parents))
    (e.children.attach.map fun ⟨c, _⟩ => c.trail o prunes (parents ++ [e.kind]))
termination_by sizeOf e
decreasing_by exact sizeOf_lt_of_mem_children ‹_›

theorem trail_eq (o : Order) (prunes : Kind → Bool) (parents : List Kind) (e : Expr) :
    e.trail o prunes parents = if prunes e.kind then .node none [] else
      .node (some (e, parents)) (e.children.map (trail o prunes (parents ++ [e.kind]))) := by
  rw [trail]
  split
  · rfl
  · rw [List.attach_map_val]

theorem labels_trail_of_prunes (h : prunes e.kind = true) :
    (e.trail o prunes parents).labels = [] := by
  rw [trail_eq, if_pos h, Trail.labels, Trail.entries_nothing]
  rfl

theorem labels_trail (h : prunes e.kind = false) :
    (e.trail o prunes parents).labels = o.place (some (e, parents))
      (e.children.flatMap fun c => (c.trail o prunes (parents ++ [e.kind])).labels) := by
  rw [trail_eq, if_neg (by simp [h]), Trail.labels_node, List.flatMap_map]

theorem mem_trail : (a, v) ∈ (e.trail o prunes parents).entries ↔ prunes e.kind = false ∧
    (a = [] ∧ v = (e, parents) ∨ ∃ i b c, a = i :: b ∧ e.children[i]? = some c ∧
      (b, v) ∈ (c.trail o prunes (parents ++ [e.kind])).entries) := by
  rw [trail_eq]
  by_cases hprunes : prunes e.kind = true
  · rw [if_pos hprunes, Trail.entries_nothing]
    exact iff_of_false List.not_mem_nil fun h => by cases hprunes.symm.trans h.1
  rw [if_neg hprunes, Trail.mem_node]
  rw [Bool.not_eq_true] at hprunes
  refine (or_congr ?_ ⟨?_, ?_⟩).trans (and_iff_right hprunes).symm
  · rw [Option.some_inj, eq_comm (a := v)]
  · rintro ⟨i, b, t, rfl, ht, hmem⟩
    obtain ⟨c, hc, rfl⟩ := Option.map_eq_some_iff.1 (List.getElem?_map ▸ ht)
    exact ⟨i, b, c, rfl, hc, hmem⟩
  · rintro ⟨i, b, c, rfl, hc, hmem⟩
    have ht := congrArg (Option.map (trail o prunes (parents ++ [e.kind]))) hc
    exact ⟨i, b, _, rfl, List.getElem?_map.trans ht, hmem⟩

/-- **The nodes on the trail** are those with nothing above them that is left out, each with the
kinds of what is above it. -/
theorem mem_trail_iff : (a, v) ∈ (e.trail o prunes parents).entries ↔
    ∃ above, e.IsAt a above v.1 ∧ v.2 = parents ++ above.map kind ∧
      ∀ d ∈ above ++ [v.1], prunes d.kind = false := by
  induction a generalizing e parents with
  | nil =>
    rw [mem_trail]
    constructor
    · rintro ⟨hopen, ⟨-, rfl⟩ | ⟨i, b, c, h, -⟩⟩
      · exact ⟨[], .here, (List.append_nil _).symm, by simpa using hopen⟩
      · cases h
    · rintro ⟨above, hat, hparents, hopen⟩
      obtain ⟨rfl, he⟩ := hat.of_nil
      refine ⟨he ▸ hopen v.1 List.mem_cons_self, .inl ⟨rfl, Prod.ext he ?_⟩⟩
      simpa using hparents
  | cons i a ih =>
    rw [mem_trail]
    constructor
    · rintro ⟨hroot, ⟨h, -⟩ | ⟨j, b, c, h, hc, hmem⟩⟩
      · cases h
      · cases h
        obtain ⟨above, hat, hparents, hopen⟩ := ih.1 hmem
        exact ⟨e :: above, .child hc hat, by simpa using hparents,
          List.forall_mem_cons.2 ⟨hroot, hopen⟩⟩
    · rintro ⟨above, hat, hparents, hopen⟩
      obtain ⟨c, above, hc, rfl, hbelow⟩ := hat.of_cons
      obtain ⟨hroot, hopen⟩ := List.forall_mem_cons.1 hopen
      exact ⟨hroot, .inr ⟨i, a, c, rfl, hc, ih.2 ⟨above, hbelow, by simpa using hparents, hopen⟩⟩⟩

/-- **A look at a tree finds the nodes of the trail.** -/
theorem labels_trail_parentsFirst (prunes : Kind → Bool) (parents : List Kind) (e : Expr) :
    (e.trail .parentsFirst prunes parents).labels = e.visitsBelow prunes parents := by
  rw [visitsBelow_eq]
  by_cases hprunes : prunes e.kind = true
  · rw [labels_trail_of_prunes hprunes, if_pos hprunes]
  · rw [labels_trail (by simpa using hprunes), if_neg hprunes]
    refine congrArg (_ :: ·) (List.flatMap_congr fun c hc => ?_)
    have hsize : sizeOf c < sizeOf e := sizeOf_lt_of_mem_children hc
    exact labels_trail_parentsFirst prunes _ c
termination_by sizeOf e

/-- The list has the nodes of the tree that are neither of a kind that `prunes` names nor below
such a node, each of them once, in the order, and with the kinds of all nodes above it, outermost
first. -/
def Lists (o : Order) (prunes : Kind → Bool) (e : Expr) (seen : List (Expr × List Kind)) : Prop :=
  ∃ trail : Trail o (Expr × List Kind), trail.labels = seen ∧
    (trail.entries.map (·.1)).Nodup ∧
    ∀ a v, (a, v) ∈ trail.entries ↔ ∃ above, e.IsAt a above v.1 ∧ v.2 = above.map kind ∧
      ∀ d ∈ above ++ [v.1], prunes d.kind = false

theorem lists_labels_trail (o : Order) (prunes : Kind → Bool) (e : Expr) :
    e.Lists o prunes (e.trail o prunes []).labels :=
  ⟨_, rfl, Trail.nodup_addresses _, fun _ _ => mem_trail_iff⟩

end Expr

end SearchQuery
