import SearchQuery.Proofs.Pass.Rebuilding
import SearchQuery.Proofs.Tree.Terms

/-!
# One stack for the kinds around a node

A traversal hands the kinds of the nodes around a node down to its children, so each call has a list
of its own. The same lists are had from a single stack that all calls share: the kind of a node is
pushed before its children are looked at and popped afterwards. That only works if the stack is put
back on every way out of a call, and there are several: a node may be skipped, it may be replaced
for good, or it may be lost in the middle of its children, with a first bound of a range for
instance, and then the children after that are never asked for.

Here the traversals are stated once more, with the stack in their state and nothing else to tell
where they are. Each of them returns with the stack that it was given, and with the answer and the
state of the traversal that hands down lists.

## Calls

How far a traversal that sees parents first goes down depends on what it puts in the place of nodes,
and with it on the stack. Its recursion therefore goes by a number of calls that may be open at the
same time, of which there are enough if they are more than the rank of the pass.

## Main definitions

* `Stacked` — a stack of kinds beside a state
* `Expr.walkOnStack` — looking at the nodes of a tree with a stack
* `Transform.parentsFirstOnStack`, `Transform.childrenFirstOnStack` — a transformation over a tree
  with a stack
* `Pass.runOnStack` — a pass over a tree with a stack, which is empty at first

## Main results

* `Expr.walkOnStack_eq`, `Pass.runOnStack_eq` — the stack is put back, and nothing else changes
-/

namespace SearchQuery

open SearchQuery.Expr

variable {σ : Type}

/-- The kinds of the nodes around a node, outermost first, beside a state. -/
structure Stacked (σ : Type) where
  /-- The kinds, of which the innermost is popped first. -/
  stack : List Kind
  /-- The state. -/
  state : σ

namespace Stacked

/-- A kind is added innermost. -/
def push (t : Stacked σ) (k : Kind) : Stacked σ := { t with stack := t.stack ++ [k] }

/-- The innermost kind is taken off. -/
def pop (t : Stacked σ) : Stacked σ := { t with stack := t.stack.dropLast }

@[simp] theorem push_mk (stack : List Kind) (s : σ) (k : Kind) :
    (mk stack s).push k = ⟨stack ++ [k], s⟩ := rfl

@[simp] theorem pop_mk_append (stack : List Kind) (k : Kind) (s : σ) :
    (mk (stack ++ [k]) s).pop = ⟨stack, s⟩ :=
  congrArg (mk · s) List.dropLast_concat

end Stacked

/-! ### Looking at a tree -/

/-- What looking at the nodes of a tree makes of a state, a node before its children and without
those of the kinds that `prunes` names and what is below them. -/
def Expr.walkOnStack (prunes : Kind → Bool) (visit : Expr → List Kind → σ → σ) (e : Expr)
    (t : Stacked σ) : Stacked σ :=
  if prunes e.kind then t
  else
    let t : Stacked σ := { t with state := visit e t.stack t.state }
    (e.children.attach.foldl (fun t ⟨c, _⟩ => c.walkOnStack prunes visit t) (t.push e.kind)).pop
termination_by sizeOf e
decreasing_by exact sizeOf_lt_of_mem_children ‹_›

/-- **Looking at a tree puts the stack back**, and sees each node with the stack that it should. -/
theorem Expr.walkOnStack_eq (prunes : Kind → Bool) (visit : Expr → List Kind → σ → σ) (e : Expr)
    (stack : List Kind) (s : σ) :
    e.walkOnStack prunes visit ⟨stack, s⟩ =
      ⟨stack, (e.visitsBelow prunes stack).foldl (fun s v => visit v.1 v.2 s) s⟩ := by
  rw [walkOnStack, visitsBelow]
  split
  · rfl
  let visits (s : σ) (v : Expr × List Kind) : σ := visit v.1 v.2 s
  have hchildren : e.children.attach.foldl (fun t c => c.1.walkOnStack prunes visit t)
        ⟨stack ++ [e.kind], visit e stack s⟩ =
      ⟨stack ++ [e.kind], e.children.attach.foldl
        (fun s c => (c.1.visitsBelow prunes (stack ++ [e.kind])).foldl visits s)
        (visit e stack s)⟩ :=
    List.foldl_hom (Stacked.mk (stack ++ [e.kind])) fun s c => by
      have hsize : sizeOf c.1 < sizeOf e := sizeOf_lt_of_mem_children c.2
      exact walkOnStack_eq prunes visit c.1 _ s
  rw [List.foldl_cons, List.foldl_flatMap]
  exact (congrArg Stacked.pop hchildren).trans (Stacked.pop_mk_append _ _ _)
termination_by sizeOf e

/-! ### Passes -/

namespace Transform

/-- The tree after a transformation, each node before its children, with `calls` calls that may be
open at the same time. There is no state if these are too few. -/
def parentsFirstOnStack (f : Transform σ) (ignores : Kind → Bool) :
    (calls : Nat) → Expr → Option (Stacked σ) → Option Expr × Option (Stacked σ)
  | calls + 1, e, some t =>
    if ignores e.kind then (some e, some t)
    else
      match f e t.stack t.state with
      | (.remove, s) => (none, some { t with state := s })
      | (.final e', s) => (some e', some { t with state := s })
      | (.keep e', s) =>
        let t : Stacked σ := { t with state := s }
        let (left?, t?) := e'.mapChildren (fun c _ t? => parentsFirstOnStack f ignores calls c t?)
          (some (t.push e'.kind))
        (left?, t?.map .pop)
  | _, _, _ => (none, none)

/-- The tree after a transformation, each node after its children. -/
def childrenFirstOnStack (f : Transform σ) (ignores : Kind → Bool) (e : Expr) (t : Stacked σ) :
    Option Expr × Stacked σ :=
  if ignores e.kind then (some e, t)
  else
    match e.mapChildren (fun c _ t => childrenFirstOnStack f ignores c t) (t.push e.kind) with
    | (none, t) => (none, t.pop)
    | (some e', t) =>
      let (outcome, s) := f e' t.pop.stack t.pop.state
      (outcome.tree?, { t.pop with state := s })
termination_by sizeOf e
decreasing_by exact sizeOf_lt_of_mem_children ‹_›

end Transform

namespace Pass

variable {p : Pass σ} {e : Expr} {s : σ} {calls : Nat} {stack : List Kind}

/-- The tree after a pass with a stack that is empty at first, and `calls` calls that may be open at
the same time. -/
def runOnStack (p : Pass σ) (calls : Nat) (e : Expr) (s : σ) : Option Expr × Option (Stacked σ) :=
  match p.order with
  | .parentsFirst => p.transform.parentsFirstOnStack p.ignores calls e (some ⟨[], s⟩)
  | .childrenFirst => (p.transform.childrenFirstOnStack p.ignores e ⟨[], s⟩).map id some

/-- A call that sees parents first returns with the stack that it was given. -/
theorem parentsFirstOnStack_eq (h : p.rank stack e < calls) :
    p.transform.parentsFirstOnStack p.ignores calls e (some ⟨stack, s⟩) =
      (p.parentsFirst stack e s).map id fun s => some ⟨stack, s⟩ := by
  induction calls generalizing stack e s with
  | zero => exact absurd h (Nat.not_lt_zero _)
  | succ calls ih =>
    by_cases hignores : p.ignores e.kind = true
    · rw [Transform.parentsFirstOnStack, parentsFirst, if_pos hignores, if_pos hignores]
      rfl
    rw [Transform.parentsFirstOnStack, if_neg hignores]
    rw [Bool.not_eq_true] at hignores
    rcases houtcome : p.transform e stack s with ⟨_ | _ | _, t⟩
    case keep d =>
      have hchildren : d.mapChildren
            (fun c _ => p.transform.parentsFirstOnStack p.ignores calls c)
            (some ⟨stack ++ [d.kind], t⟩) =
          (d.mapChildren (fun c _ => p.parentsFirst (stack ++ [d.kind]) c) t).map id
            fun s => some ⟨stack ++ [d.kind], s⟩ :=
        mapChildren_map_state fun c hc s => ih (by
          have hrank := p.descends e stack _ d (congrArg Prod.fst houtcome) c hc
          omega)
      simp only [Stacked.push_mk, hchildren, parentsFirst_of_keep hignores houtcome, Prod.map,
        Option.map_some, Stacked.pop_mk_append]
    case final d =>
      rw [parentsFirst_eq_of_final hignores (congrArg Prod.fst houtcome), houtcome]
      rfl
    case remove =>
      rw [parentsFirst_of_remove hignores houtcome]
      rfl

/-- A call that sees children first returns with the stack that it was given. -/
theorem childrenFirstOnStack_eq (p : Pass σ) (e : Expr) (stack : List Kind) (s : σ) :
    p.transform.childrenFirstOnStack p.ignores e ⟨stack, s⟩ =
      (p.childrenFirst stack e s).map id (Stacked.mk stack) := by
  rw [Transform.childrenFirstOnStack, childrenFirst]
  split
  · rfl
  have hchildren : e.mapChildren (fun c _ => p.transform.childrenFirstOnStack p.ignores c)
        ⟨stack ++ [e.kind], s⟩ =
      (e.mapChildren (fun c _ => p.childrenFirst (stack ++ [e.kind]) c) s).map id
        (Stacked.mk (stack ++ [e.kind])) :=
    mapChildren_map_state fun c hc s => by
      have hsize : sizeOf c < sizeOf e := sizeOf_lt_of_mem_children hc
      exact childrenFirstOnStack_eq p c _ s
  rw [Stacked.push_mk, hchildren]
  rcases e.mapChildren (fun c _ => p.childrenFirst (stack ++ [e.kind]) c) s with ⟨_ | d, t⟩
  · simp
  · simp
termination_by sizeOf e

/-- **A pass leaves an empty stack**, and makes of the tree and the state what it makes without a
stack. -/
theorem runOnStack_eq (h : p.rank [] e < calls) :
    p.runOnStack calls e s = ((p.run e s).1, some ⟨[], (p.run e s).2⟩) := by
  rw [runOnStack, run]
  cases p.order with
  | parentsFirst => exact parentsFirstOnStack_eq h
  | childrenFirst =>
    dsimp only
    rw [childrenFirstOnStack_eq]
    rfl

end Pass

end SearchQuery
