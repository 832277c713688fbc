import SearchQuery.Expr.Basic

/-!
# Looking at the nodes of a tree

Whether a query asks for something is often a matter of where it stands: a word below an exclusion
is not asked for. A look at the nodes of a tree therefore shows each with the kinds of the nodes
around it, and can leave out whole subtrees by the kind of their root. The kinds are enough, since
no inspection looks at what the nodes around hold.

## Main definitions

* `Expr.visitsBelow`, `Expr.visits` — the nodes of a tree with the kinds of the nodes around them,
  a node before its children, without those of some kinds and what is below them
-/

namespace SearchQuery.Expr

/-- The nodes of a tree that stands below `parents`, each with the kinds of the nodes around it,
outermost first. Nodes of the kinds that `prunes` names are left out with what is below them. -/
def visitsBelow (prunes : Kind → Bool) (parents : List Kind) (e : Expr) :
    List (Expr × List Kind) :=
  if prunes e.kind then []
  else
    (e, parents) :: e.children.attach.flatMap fun ⟨c, _⟩ =>
      c.visitsBelow prunes (parents ++ [e.kind])
termination_by sizeOf e
decreasing_by exact sizeOf_lt_of_mem_children ‹_›

/-- The nodes of a tree, each with the kinds of the nodes around it. -/
def visits (prunes : Kind → Bool) (e : Expr) : List (Expr × List Kind) :=
  e.visitsBelow prunes []

end SearchQuery.Expr
