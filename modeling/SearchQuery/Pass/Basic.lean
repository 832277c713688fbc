import SearchQuery.Expr.Weight

/-!
# Passes over query trees

A pass looks at one node at a time, with the kinds of the nodes around it, and says what becomes of
it. It runs over a tree in one of two orders. Parents first, a node is replaced before its children
are looked at, and what is looked at next are the children of the replacement. Children first, a
node is looked at once its children have been replaced.

## Why passes come with a rank

Parents first, a replacement may be larger than the node it stands for, so the size of the tree does
not bound the run. A pass therefore comes with a rank of nodes that falls from a node to the
children of its replacement, and with the proof that it falls. The rank may look at the nodes
around, which is how any transformation becomes a pass that stops at a given depth. The passes of
this library use the weight of a tree and do not stop anywhere.

Children first, what a node becomes is not looked at again, and the size of the tree suffices. The
rank is part of every pass all the same, since the order is one of its fields.

## State

A pass carries a state along, in which it notes what it finds. The state that a node gets is the one
that the nodes before it left, also if they were lost. Nothing is undone when a subtree is lost.

## Main definitions

* `Outcome` — what becomes of a node
* `Pass` — a pass with a state of type `σ`
* `Pass.parentsFirst`, `Pass.childrenFirst`, `Pass.run` — a pass over a tree
* `Pass.ignoring` — a pass that leaves the nodes of some kinds alone
* `Pass.bounded` — any transformation as a pass that stops at a given depth

## Main results

* `Transform.descends_of_keep_self` — a transformation that keeps nodes only as they are makes
  progress
-/

namespace SearchQuery

/-- What becomes of a node. -/
inductive Outcome where
  /-- It is replaced, and the children of the replacement are looked at. -/
  | keep (e : Expr)
  /-- It is replaced, and the replacement is left alone. -/
  | final (e : Expr)
  /-- It is removed. -/
  | remove
  deriving Repr, Inhabited

/-- The replacement of a node. -/
def Outcome.tree? : Outcome → Option Expr
  | keep e => some e
  | final e => some e
  | remove => none

/-- The order in which a pass sees a node and its children. -/
inductive Order where
  /-- A node comes before its children. -/
  | parentsFirst
  /-- A node comes after its children. -/
  | childrenFirst
  deriving DecidableEq, Repr

/-- A transformation of nodes that sees the kinds of the nodes around a node, outermost first, and
carries a state along. -/
abbrev Transform (σ : Type) := Expr → List Kind → σ → Outcome × σ

/-- The rank falls from a node to every child of a replacement that is looked at. -/
def Transform.Descends {σ : Type} (f : Transform σ) (rank : List Kind → Expr → Nat) : Prop :=
  ∀ e parents s e', (f e parents s).1 = .keep e' →
    ∀ c ∈ e'.children, rank (parents ++ [e'.kind]) c < rank parents e

/-- A pass over query trees. -/
structure Pass (σ : Type) where
  /-- The order in which nodes are seen. -/
  order : Order
  /-- The kinds of nodes that are left alone with everything below them. -/
  ignores : Kind → Bool
  /-- What becomes of a node. -/
  transform : Transform σ
  /-- The rank of a node. -/
  rank : List Kind → Expr → Nat
  /-- The pass makes progress. -/
  descends : transform.Descends rank

namespace Pass

variable {σ : Type}

/-! ### Running -/

/-- The tree after the pass, each node before its children. -/
def parentsFirst (p : Pass σ) (parents : List Kind) (e : Expr) (s : σ) : Option Expr × σ :=
  if p.ignores e.kind then (some e, s)
  else
    match _hkeep : p.transform e parents s with
    | (.remove, s) => (none, s)
    | (.final e', s) => (some e', s)
    | (.keep e', s) =>
      e'.mapChildren (fun c _ s => p.parentsFirst (parents ++ [e'.kind]) c s) s
termination_by p.rank parents e
decreasing_by exact p.descends e parents _ e' (by rw [_hkeep]) c ‹_›

/-- The tree after the pass, each node after its children. -/
def childrenFirst (p : Pass σ) (parents : List Kind) (e : Expr) (s : σ) : Option Expr × σ :=
  if p.ignores e.kind then (some e, s)
  else
    match e.mapChildren (fun c _ s => p.childrenFirst (parents ++ [e.kind]) c s) s with
    | (none, s) => (none, s)
    | (some e', s) =>
      let (outcome, s) := p.transform e' parents s
      (outcome.tree?, s)
termination_by sizeOf e
decreasing_by exact Expr.sizeOf_lt_of_mem_children ‹_›

/-- The tree after the pass, if its root is not removed, and the state. -/
def run (p : Pass σ) (e : Expr) (s : σ) : Option Expr × σ :=
  match p.order with
  | .parentsFirst => p.parentsFirst [] e s
  | .childrenFirst => p.childrenFirst [] e s

/-! ### Making passes -/

/-- The pass that leaves the nodes of the given kinds alone. -/
def ignoring (p : Pass σ) (kinds : List Kind) : Pass σ :=
  { p with ignores := fun kind => kinds.contains kind || p.ignores kind }

/-- A transformation that lets nodes at depth `limit` and below stand as they are. -/
def cutAt (limit : Nat) (f : Transform σ) : Transform σ := fun e parents s =>
  if parents.length < limit then f e parents s else (.final e, s)

/-- The number of levels that are left is a rank of any transformation that stops. -/
theorem cutAt_descends (limit : Nat) (f : Transform σ) :
    (cutAt limit f).Descends fun parents _ => limit - parents.length := by
  intro e parents s e' h c _
  rw [cutAt] at h
  split at h
  · simp; omega
  · simp at h

/-- Any transformation as a pass, which stops at depth `limit`. -/
def bounded (order : Order) (limit : Nat) (f : Transform σ) : Pass σ where
  order
  ignores := fun _ => false
  transform := cutAt limit f
  rank := fun parents _ => limit - parents.length
  descends := cutAt_descends limit f

/-- A pass whose replacements lose weight. -/
def ofTransform (order : Order) (f : Transform σ)
    (descends : f.Descends fun _ e => e.weight) : Pass σ where
  order
  ignores := fun _ => false
  transform := f
  rank := fun _ e => e.weight
  descends

end Pass

/-- A transformation that keeps a node only as it is makes progress. -/
theorem Transform.descends_of_keep_self {σ : Type} {f : Transform σ}
    (h : ∀ e parents s e', (f e parents s).1 = .keep e' → e' = e) :
    f.Descends fun _ e => e.weight := by
  intro e parents s e' he c hc
  rw [h e parents s e' he] at hc
  exact Expr.weight_lt_of_mem_children hc

end SearchQuery
