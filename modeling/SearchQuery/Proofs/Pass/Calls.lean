import SearchQuery.Proofs.Pass.Stack
import SearchQuery.Proofs.Pass.Substitution
import SearchQuery.Proofs.Tree.Addresses

/-!
# What a pass is shown

A transformation decides about a node by what it is shown: the node, the kinds of the nodes around
it, and the state. All that passes do inside fields, groups and excluded operands rests on these
kinds being right. Here the calls of a transformation are written down while a pass runs, and
compared with where in the tree they belong.

## Trees that change under way

A pass that keeps every node is shown the nodes that a look at the tree finds. In any other pass the
tree changes while the pass goes through it, and a node has to be looked for elsewhere. Children
first, what is shown at a node has been put together from answers for its children, and the nodes
around it are still those of the given tree. Parents first, it is the other way around: what is
shown is a child of something that has been put in the place of its parent, and the way to it leads
through replacements only. Each of them was the answer to a call on the same trail.

## Main definitions

* `Call`, `Pass.recorded`, `Pass.calls` — the calls of a transformation, written down
* `Trail.Along` — trails that belong to the children of a node
* `Pass.Leads` — the way to a node through replacements
* `Pass.FollowsReplacements`, `Pass.FollowsNodes` — each call of a trail is shown the kinds on the
  way to it
* `Pass.KeepsNodes` — a pass that keeps every node as it is

## Main results

* `Pass.run_recorded` — writing calls down changes nothing
* `Pass.run_eq_foldl` — a pass that keeps every node, as a look at the tree
* `Pass.map_seen_calls` — the calls of a pass that keeps every node
* `Expr.exists_trails_mapChildren` — what is met at the children of a node
* `Pass.exists_followsReplacements`, `Pass.exists_followsNodes` — the calls of any pass
-/

namespace SearchQuery

open SearchQuery.Expr

variable {σ : Type}

/-! ### Children and the state -/

namespace Expr

variable {e : Expr} {s : σ}

/-- A second part of the state that no answer depends on may be left out. -/
theorem mapChildren_fst_state {β : Type}
    {f : (c : Expr) → c ∈ e.children → σ → Option Expr × σ}
    {g : (c : Expr) → c ∈ e.children → σ × β → Option Expr × (σ × β)}
    (h : ∀ c hc s, f c hc s.1 = (g c hc s).map id (·.1)) (s : σ × β) :
    e.mapChildren f s.1 = (e.mapChildren g s).map id (·.1) :=
  mapChildren_map_state h

/-- Children that all stay as they are leave their node as it is, whatever becomes of the state. -/
theorem mapChildren_eq_foldl_of_keep (he : e.HasOperands) {next : Expr → σ → σ}
    {f : (c : Expr) → c ∈ e.children → σ → Option Expr × σ}
    (h : ∀ c hc s, f c hc s = (some c, next c s)) :
    e.mapChildren f s = (some e, e.children.foldl (fun s c => next c s) s) := by
  have hlost : ∀ left right il ir, e = range left right il ir → some left = none →
      ∀ s, next right (next left s) = next left s := fun _ _ _ _ _ hnone => by cases hnone
  rw [mapChildren_eq_foldl h hlost, rebuild_eq_self he fun _ _ => rfl]

end Expr

/-! ### Calls -/

/-- A call of a transformation. -/
structure Call (σ : Type) where
  /-- The node that is shown. -/
  node : Expr
  /-- The kinds of the nodes around it, outermost first. -/
  parents : List Kind
  /-- The state before the call. -/
  state : σ

/-- What is seen in a call: a node, and the kinds of the nodes around it. -/
def Call.seen (call : Call σ) : Expr × List Kind := (call.node, call.parents)

namespace Pass

variable {p : Pass σ}

/-- The pass that writes down the calls of its transformation. -/
def recorded (p : Pass σ) : Pass (σ × List (Call σ)) where
  order := p.order
  ignores := p.ignores
  transform := fun e parents s =>
    let (outcome, t) := p.transform e parents s.1
    (outcome, t, s.2 ++ [⟨e, parents, s.1⟩])
  rank := p.rank
  descends := fun e parents s => p.descends e parents s.1

/-- The calls of the transformation when the pass runs over a tree, from first to last. -/
def calls (p : Pass σ) (e : Expr) (s : σ) : List (Call σ) := (p.recorded.run e (s, [])).2.2

@[simp] theorem order_recorded (p : Pass σ) : p.recorded.order = p.order := rfl

@[simp] theorem ignores_recorded (p : Pass σ) : p.recorded.ignores = p.ignores := rfl

theorem transform_recorded {parents : List Kind} {e : Expr} {s : σ × List (Call σ)}
    {outcome : Outcome} {t : σ} (h : p.transform e parents s.1 = (outcome, t)) :
    p.recorded.transform e parents s = (outcome, t, s.2 ++ [⟨e, parents, s.1⟩]) := by
  simp only [recorded, h]

theorem parentsFirst_recorded (p : Pass σ) (parents : List Kind) (e : Expr)
    (s : σ × List (Call σ)) :
    p.parentsFirst parents e s.1 = (p.recorded.parentsFirst parents e s).map id (·.1) := by
  by_cases hignores : p.ignores e.kind = true
  · rw [parentsFirst, if_pos hignores, parentsFirst, ignores_recorded, if_pos hignores]
    rfl
  rw [Bool.not_eq_true] at hignores
  have hrecorded : p.recorded.ignores e.kind = false := hignores
  rcases houtcome : p.transform e parents s.1 with ⟨_ | _ | _, t⟩
  case keep d =>
    rw [parentsFirst_of_keep hignores houtcome,
      parentsFirst_of_keep hrecorded (transform_recorded houtcome)]
    refine mapChildren_fst_state (fun c hc s => ?_) (t, _)
    have hrank : p.rank (parents ++ [d.kind]) c < p.rank parents e :=
      p.descends e parents _ d (congrArg Prod.fst houtcome) c hc
    exact parentsFirst_recorded p _ c s
  case final d =>
    have hfinal := transform_recorded houtcome
    rw [parentsFirst_eq_of_final hignores (congrArg Prod.fst houtcome), houtcome,
      parentsFirst_eq_of_final hrecorded (congrArg Prod.fst hfinal), hfinal]
    rfl
  case remove =>
    rw [parentsFirst_of_remove hignores houtcome,
      parentsFirst_of_remove hrecorded (transform_recorded houtcome)]
    rfl
termination_by p.rank parents e

theorem childrenFirst_recorded (p : Pass σ) (parents : List Kind) (e : Expr)
    (s : σ × List (Call σ)) :
    p.childrenFirst parents e s.1 = (p.recorded.childrenFirst parents e s).map id (·.1) := by
  rw [childrenFirst, childrenFirst, ignores_recorded]
  split
  · rfl
  rw [mapChildren_fst_state fun c hc s => by
    have hsize : sizeOf c < sizeOf e := sizeOf_lt_of_mem_children hc
    exact childrenFirst_recorded p (parents ++ [e.kind]) c s]
  rcases e.mapChildren (fun c _ => p.recorded.childrenFirst (parents ++ [e.kind]) c) s
    with ⟨_ | d, t⟩
  · rfl
  · rfl
termination_by sizeOf e

/-- **Writing calls down changes nothing** about what a pass leaves of a tree and a state. -/
theorem run_recorded (p : Pass σ) (e : Expr) (s : σ) :
    p.recorded.run e (s, []) = ((p.run e s).1, (p.run e s).2, p.calls e s) := by
  have hrun : p.run e s = (p.recorded.run e (s, [])).map id (·.1) := by
    rw [run, run, order_recorded]
    cases p.order with
    | parentsFirst => exact parentsFirst_recorded p [] e (s, [])
    | childrenFirst => exact childrenFirst_recorded p [] e (s, [])
  rw [hrun, calls]
  rfl

/-! ### Passes that keep every node -/

/-- Every node is kept as it is. The state may change. -/
def KeepsNodes (p : Pass σ) : Prop := ∀ e parents s, (p.transform e parents s).1 = .keep e

theorem KeepsNodes.recorded (hp : p.KeepsNodes) : p.recorded.KeepsNodes :=
  fun e parents s => hp e parents s.1

theorem KeepsNodes.transform_eq (hp : p.KeepsNodes) (e : Expr) (parents : List Kind) (s : σ) :
    p.transform e parents s = (.keep e, p.noteAt s (e, parents)) :=
  Prod.ext (hp e parents s) rfl

theorem parentsFirst_eq_foldl (hp : p.KeepsNodes) {e : Expr} (he : e.Filled) (parents : List Kind)
    (s : σ) : p.parentsFirst parents e s =
      (some e, (e.trail .parentsFirst p.ignores parents).labels.foldl p.noteAt s) := by
  induction he generalizing parents s with
  | @intro e root _ ih =>
    by_cases hignores : p.ignores e.kind = true
    · rw [parentsFirst, if_pos hignores, labels_trail_of_prunes hignores]
      rfl
    rw [Bool.not_eq_true] at hignores
    rw [parentsFirst_of_keep hignores (hp.transform_eq e parents s), labels_trail hignores,
      mapChildren_eq_foldl_of_keep root fun c hc s => ih c hc _ s]
    simp only [Order.place, Option.toList_some, List.singleton_append, List.foldl_cons,
      List.foldl_flatMap]

theorem childrenFirst_eq_foldl (hp : p.KeepsNodes) {e : Expr} (he : e.Filled) (parents : List Kind)
    (s : σ) : p.childrenFirst parents e s =
      (some e, (e.trail .childrenFirst p.ignores parents).labels.foldl p.noteAt s) := by
  induction he generalizing parents s with
  | @intro e root _ ih =>
    rw [childrenFirst]
    by_cases hignores : p.ignores e.kind = true
    · rw [if_pos hignores, labels_trail_of_prunes hignores]
      rfl
    rw [if_neg hignores, labels_trail (by simpa using hignores),
      mapChildren_eq_foldl_of_keep root fun c hc s => ih c hc _ s]
    simp only [hp.transform_eq, Outcome.tree?, Order.place, Option.toList_some, List.foldl_append,
      List.foldl_flatMap, List.foldl_cons, List.foldl_nil]

/-- **A pass that keeps every node leaves the tree as it is**, and makes of the state what a look at
the nodes of the tree in the order of the pass makes of it. -/
theorem run_eq_foldl (hp : p.KeepsNodes) {e : Expr} (he : e.Filled) (s : σ) :
    p.run e s = (some e, (e.trail p.order p.ignores []).labels.foldl p.noteAt s) := by
  rw [run]
  cases p.order with
  | parentsFirst => exact parentsFirst_eq_foldl hp he [] s
  | childrenFirst => exact childrenFirst_eq_foldl hp he [] s

theorem map_seen_foldl_noteAt (p : Pass σ) (vs : List (Expr × List Kind))
    (s : σ × List (Call σ)) :
    (vs.foldl p.recorded.noteAt s).2.map Call.seen = s.2.map Call.seen ++ vs := by
  induction vs generalizing s with
  | nil => exact (List.append_nil _).symm
  | cons v vs ih =>
    have hnote : (p.recorded.noteAt s v).2.map Call.seen = s.2.map Call.seen ++ [v] :=
      List.map_append
    rw [List.foldl_cons, ih, hnote, List.append_assoc]
    rfl

/-- The calls of a pass that keeps every node. -/
theorem map_seen_calls (hp : p.KeepsNodes) {e : Expr} (he : e.Filled) (s : σ) :
    (p.calls e s).map Call.seen = (e.trail p.order p.ignores []).labels := by
  rw [calls, run_eq_foldl hp.recorded he, map_seen_foldl_noteAt]
  rfl

end Pass

/-! ### What is met at children -/

section Children

variable {χ : Type} {o : Order} {R : Expr → Trail o χ → Prop} {c : Expr} {cs : List Expr}
  {t : Trail o χ} {ts : List (Trail o χ)}

/-- Each trail belongs to the child at its position. The last children may have none. -/
def Trail.Along (R : Expr → Trail o χ → Prop) (cs : List Expr) (ts : List (Trail o χ)) : Prop :=
  ∀ (i : Nat) t, ts[i]? = some t → ∃ c, cs[i]? = some c ∧ R c t

theorem Trail.along_nil : Trail.Along R cs [] := fun i t ht => by simp at ht

theorem Trail.Along.cons (h : R c t) (hrest : Trail.Along R cs ts) :
    Trail.Along R (c :: cs) (t :: ts) := by
  intro i t' ht
  cases i with
  | zero =>
    cases ht
    exact ⟨c, rfl, h⟩
  | succ i => exact hrest i t' ht

namespace Expr

theorem exists_trails_collect {es : List Expr}
    {f : (c : Expr) → c ∈ es → σ × List χ → Option Expr × (σ × List χ)}
    (h : ∀ c hc s, ∃ t : Trail o χ, (f c hc s).2.2 = s.2 ++ t.labels ∧ R c t) (s : σ × List χ) :
    ∃ ts : List (Trail o χ), (collect es f s).2.2 = s.2 ++ ts.flatMap Trail.labels ∧
      Trail.Along R es ts := by
  induction es generalizing s with
  | nil => exact ⟨[], (List.append_nil _).symm, Trail.along_nil⟩
  | cons e es ih =>
    obtain ⟨t, hlabels, hR⟩ := h e List.mem_cons_self s
    obtain ⟨ts, hrest, hRs⟩ := ih (fun c hc => h c (List.mem_cons_of_mem e hc))
      (f e List.mem_cons_self s).2
    refine ⟨t :: ts, ?_, hRs.cons hR⟩
    rw [List.flatMap_cons, ← List.append_assoc, ← hlabels]
    exact hrest

/-- **What is met at the children of a node**, when each child adds a trail to what has been met
before. The last children have none if a child before them has been lost. -/
theorem exists_trails_mapChildren {e : Expr}
    {f : (c : Expr) → c ∈ e.children → σ × List χ → Option Expr × (σ × List χ)}
    (h : ∀ c hc s, ∃ t : Trail o χ, (f c hc s).2.2 = s.2 ++ t.labels ∧ R c t) (s : σ × List χ) :
    ∃ ts : List (Trail o χ), (e.mapChildren f s).2.2 = s.2 ++ ts.flatMap Trail.labels ∧
      Trail.Along R e.children ts := by
  cases e with
  | word | phrase | regex | doi | url => exact ⟨[], (List.append_nil _).symm, Trail.along_nil⟩
  | group | synonyms => exact exists_trails_collect h s
  | range left right il ir =>
    obtain ⟨t, hleft, hR⟩ := h left (by simp [children]) s
    rw [mapChildren]
    split
    · rename_i s' heq
      rw [heq] at hleft
      exact ⟨[t], by simpa using hleft, Trail.along_nil.cons hR⟩
    · rename_i left' s' heq
      rw [heq] at hleft
      dsimp only at hleft
      obtain ⟨t', hright, hR'⟩ := h right (by simp [children]) s'
      rw [hleft, List.append_assoc] at hright
      exact ⟨[t, t'], by simpa using hright, (Trail.along_nil.cons hR').cons hR⟩
  | field | boost | fuzzy | proximity | plus | minus =>
    obtain ⟨t, hbody, hR⟩ := h _ (List.mem_singleton_self _) s
    exact ⟨[t], by simpa [mapChildren] using hbody, Trail.along_nil.cons hR⟩

end Expr

end Children

/-! ### Passes that replace and remove nodes -/

namespace Pass

variable {p : Pass σ} {parents : List Kind} {e d c : Expr} {above : List Expr} {a : List Nat}
  {i : Nat}

/-- The way from the root to a node through replacements, outermost first. Each of them was the
answer to a call on the trail, at the node that the way had led to. -/
inductive Leads (p : Pass σ) (trail : List (List Nat × Call σ)) (e : Expr) :
    List Nat → List Expr → Expr → Prop where
  /-- The root of the tree. -/
  | start : Leads p trail e [] [] e
  /-- A child of the answer to a call. -/
  | child {a : List Nat} {i : Nat} {above : List Expr} {call : Call σ} {d c : Expr}
      (h : Leads p trail e a above call.node) (hcall : (a, call) ∈ trail)
      (hkeep : (p.transform call.node call.parents call.state).1 = .keep d)
      (hc : d.children[i]? = some c) : Leads p trail e (a ++ [i]) (above ++ [d]) c

/-- A way from a child goes on the way to the child. -/
theorem Leads.inside {trail below : List (List Nat × Call σ)} {call : Call σ} {b : Expr}
    (hcall : ([], call) ∈ trail)
    (hkeep : (p.transform call.node call.parents call.state).1 = .keep d)
    (hc : d.children[i]? = some c) (hbelow : ∀ a call, (a, call) ∈ below → (i :: a, call) ∈ trail)
    (h : p.Leads below c a above b) : p.Leads trail call.node (i :: a) (d :: above) b := by
  induction h with
  | start => exact .child .start hcall hkeep hc
  | child _ hmem hkeep' hc' ih => exact .child ih (hbelow _ _ hmem) hkeep' hc'

/-- Each call on the trail is shown the kinds of the replacements on the way to it from a tree that
stands below `parents`. -/
def FollowsReplacements (p : Pass σ) (parents : List Kind) (e : Expr)
    (trail : Trail .parentsFirst (Call σ)) : Prop :=
  ∀ a call, (a, call) ∈ trail.entries → p.ignores call.node.kind = false ∧ ∃ above,
    p.Leads trail.entries e a above call.node ∧ call.parents = parents ++ above.map kind

theorem followsReplacements_nothing :
    p.FollowsReplacements parents e (Trail.node none []) := by
  intro a call hmem
  rw [Trail.entries_nothing] at hmem
  cases hmem

theorem followsReplacements_call (s : σ) (hignores : p.ignores e.kind = false) :
    p.FollowsReplacements parents e (Trail.node (some ⟨e, parents, s⟩) []) := by
  intro a call hmem
  obtain ⟨rfl, hcall⟩ | ⟨i, b, t, rfl, ht, -⟩ := Trail.mem_node.1 hmem
  · cases hcall
    exact ⟨hignores, [], .start, (List.append_nil _).symm⟩
  · simp at ht

theorem followsReplacements_node {s : σ} {ts : List (Trail .parentsFirst (Call σ))}
    (hignores : p.ignores e.kind = false) (hkeep : (p.transform e parents s).1 = .keep d)
    (hts : Trail.Along (p.FollowsReplacements (parents ++ [d.kind])) d.children ts) :
    p.FollowsReplacements parents e (Trail.node (some ⟨e, parents, s⟩) ts) := by
  intro a call hmem
  have hroot : ([], ⟨e, parents, s⟩) ∈ (Trail.node (some ⟨e, parents, s⟩) ts).entries :=
    Trail.mem_node.2 (.inl ⟨rfl, rfl⟩)
  obtain ⟨rfl, hcall⟩ | ⟨i, b, t, rfl, ht, hmem⟩ := Trail.mem_node.1 hmem
  · cases hcall
    exact ⟨hignores, [], .start, (List.append_nil _).symm⟩
  · obtain ⟨c, hc, hcalls⟩ := hts i t ht
    obtain ⟨hopen, above, hleads, hparents⟩ := hcalls b call hmem
    refine ⟨hopen, d :: above, hleads.inside hroot hkeep hc fun b call h => ?_, ?_⟩
    · exact Trail.mem_node.2 (.inr ⟨i, b, t, rfl, ht, h⟩)
    · simpa using hparents

/-- **The calls of a pass that sees parents first.** -/
theorem exists_followsReplacements (p : Pass σ) (parents : List Kind) (e : Expr)
    (s : σ × List (Call σ)) :
    ∃ trail, (p.recorded.parentsFirst parents e s).2.2 = s.2 ++ trail.labels ∧
      p.FollowsReplacements parents e trail := by
  by_cases hignores : p.ignores e.kind = true
  · refine ⟨_, ?_, followsReplacements_nothing⟩
    rw [parentsFirst, ignores_recorded, if_pos hignores]
    exact (List.append_nil _).symm
  rw [Bool.not_eq_true] at hignores
  have hrecorded : p.recorded.ignores e.kind = false := hignores
  rcases houtcome : p.transform e parents s.1 with ⟨outcome, t⟩
  have htransform := transform_recorded houtcome
  cases outcome with
  | keep d =>
    have hkeep : (p.transform e parents s.1).1 = .keep d := congrArg Prod.fst houtcome
    -- The children of the replacement have trails of their own, since their rank is lower.
    have hchild (c : Expr) (hc : c ∈ d.children) (s : σ × List (Call σ)) :=
      have hrank : p.rank (parents ++ [d.kind]) c < p.rank parents e :=
        p.descends e parents _ d hkeep c hc
      exists_followsReplacements p (parents ++ [d.kind]) c s
    obtain ⟨ts, hlabels, hts⟩ := exists_trails_mapChildren hchild (t, s.2 ++ [⟨e, parents, s.1⟩])
    refine ⟨_, ?_, followsReplacements_node hignores hkeep hts⟩
    rw [parentsFirst_of_keep hrecorded htransform, hlabels, Trail.labels_node, List.append_assoc]
    rfl
  | final d =>
    refine ⟨_, ?_, followsReplacements_call s.1 hignores⟩
    rw [parentsFirst_eq_of_final hrecorded (congrArg Prod.fst htransform), htransform]
    rfl
  | remove =>
    refine ⟨_, ?_, followsReplacements_call s.1 hignores⟩
    rw [parentsFirst_of_remove hrecorded htransform]
    rfl
termination_by p.rank parents e

/-- Each call on the trail is shown what is left of a node, with the kinds of the nodes above that
node in a tree that stands below `parents`. -/
def FollowsNodes (p : Pass σ) (parents : List Kind) (e : Expr)
    (trail : Trail .childrenFirst (Call σ)) : Prop :=
  ∀ a call, (a, call) ∈ trail.entries → ∃ above d, e.IsAt a above d ∧
    (∀ b ∈ above ++ [d], p.ignores b.kind = false) ∧ call.parents = parents ++ above.map kind ∧
    ∃ s, d.mapChildren (fun c _ => p.childrenFirst (call.parents ++ [d.kind]) c) s =
      (some call.node, call.state)

theorem followsNodes_node (call? : Option (Call σ)) {ts : List (Trail .childrenFirst (Call σ))}
    (hignores : p.ignores e.kind = false)
    (hcall : ∀ call, call? = some call → call.parents = parents ∧
      ∃ s, e.mapChildren (fun c _ => p.childrenFirst (call.parents ++ [e.kind]) c) s =
        (some call.node, call.state))
    (hts : Trail.Along (p.FollowsNodes (parents ++ [e.kind])) e.children ts) :
    p.FollowsNodes parents e (Trail.node call? ts) := by
  intro a call hmem
  obtain ⟨rfl, hroot⟩ | ⟨i, b, t, rfl, ht, hmem⟩ := Trail.mem_node.1 hmem
  · obtain ⟨hparents, hleft⟩ := hcall call hroot
    exact ⟨[], e, .here, by simpa using hignores, by simpa using hparents, hleft⟩
  · obtain ⟨c, hc, hcalls⟩ := hts i t ht
    obtain ⟨above, d, hat, hopen, hparents, hleft⟩ := hcalls b call hmem
    exact ⟨e :: above, d, .child hc hat, List.forall_mem_cons.2 ⟨hignores, hopen⟩,
      by simpa using hparents, hleft⟩

/-- **The calls of a pass that sees children first.** -/
theorem exists_followsNodes (p : Pass σ) (parents : List Kind) (e : Expr) (s : σ × List (Call σ)) :
    ∃ trail, (p.recorded.childrenFirst parents e s).2.2 = s.2 ++ trail.labels ∧
      p.FollowsNodes parents e trail := by
  rw [childrenFirst, ignores_recorded]
  by_cases hignores : p.ignores e.kind = true
  · refine ⟨.node none [], ?_, fun a call hmem => ?_⟩
    · rw [if_pos hignores]
      exact (List.append_nil _).symm
    · rw [Trail.entries_nothing] at hmem
      cases hmem
  rw [if_neg hignores]
  rw [Bool.not_eq_true] at hignores
  have hchild (c : Expr) (hc : c ∈ e.children) (s : σ × List (Call σ)) :=
    have hsize : sizeOf c < sizeOf e := sizeOf_lt_of_mem_children hc
    exists_followsNodes p (parents ++ [e.kind]) c s
  obtain ⟨ts, hlabels, hts⟩ := exists_trails_mapChildren hchild s
  have hleft : e.mapChildren (fun c _ => p.childrenFirst (parents ++ [e.kind]) c) s.1 = _ :=
    mapChildren_fst_state (fun c _ s => childrenFirst_recorded p _ c s) s
  rcases hmap : e.mapChildren (fun c _ => p.recorded.childrenFirst (parents ++ [e.kind]) c) s
    with ⟨_ | d, t⟩
  · rw [hmap] at hlabels
    refine ⟨_, ?_, followsNodes_node none hignores (fun _ h => by cases h) hts⟩
    exact hlabels.trans (by simp [Trail.labels_node, Order.place])
  · rw [hmap] at hlabels hleft
    refine ⟨_, ?_, followsNodes_node (some ⟨d, parents, t.1⟩) hignores ?_ hts⟩
    · rw [Trail.labels_node, Order.place, ← List.append_assoc, ← hlabels]
      rfl
    · rintro call ⟨⟩
      exact ⟨rfl, s.1, hleft⟩
termination_by sizeOf e

end Pass

end SearchQuery
