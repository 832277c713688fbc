import Mathlib.Data.List.Basic
import SearchQuery.Proofs.Tree.Nodes

/-!
# What is found in a tree

A look at a tree finds its nodes from left to right, each before what is below it. The terms are
the nodes below which nothing stands, so they come in the order in which they are written, and the
groups and operators between them make no difference to it.

## Main definitions

* `Expr.found` — what the nodes of a tree hold of some sort, from left to right
* `Expr.terms` — the terms of a tree from left to right

## Main results

* `Expr.visitsBelow_eq` — a node is found before its children, and these with it around them
* `Expr.found_eq` — what is found at a node and below it
* `Expr.terms_of_value?_isSome`, `Expr.terms_of_value?_eq_none` — the terms of a node
-/

namespace SearchQuery.Expr

variable {e : Expr}

/-! ### What a look at a tree finds -/

theorem visitsBelow_eq (prunes : Kind → Bool) (parents : List Kind) (e : Expr) :
    e.visitsBelow prunes parents = if prunes e.kind then [] else
      (e, parents) :: e.children.flatMap (visitsBelow prunes (parents ++ [e.kind])) := by
  rw [visitsBelow]
  split
  · rfl
  · simp

/-- The nodes that are found do not depend on what stands around the tree. -/
theorem map_fst_visitsBelow (prunes : Kind → Bool) (parents parents' : List Kind) (e : Expr) :
    (e.visitsBelow prunes parents).map (·.1) = (e.visitsBelow prunes parents').map (·.1) := by
  rw [visitsBelow_eq, visitsBelow_eq]
  split
  · rfl
  · rw [List.map_cons, List.map_cons, List.map_flatMap, List.map_flatMap]
    refine congrArg _ (List.flatMap_congr fun c hc => ?_)
    have hsize : sizeOf c < sizeOf e := sizeOf_lt_of_mem_children hc
    exact map_fst_visitsBelow prunes _ _ c
termination_by sizeOf e

/-- The nodes of a tree are its root and those of its children. -/
theorem map_fst_visits (e : Expr) :
    (e.visits fun _ => false).map (·.1) =
      e :: e.children.flatMap fun c => (c.visits fun _ => false).map (·.1) := by
  rw [visits, visitsBelow_eq, if_neg (by simp), List.map_cons, List.map_flatMap]
  exact congrArg _ (List.flatMap_congr fun c _ => map_fst_visitsBelow _ _ _ c)

section Found

variable {α : Type} {take? : Expr → Option α}

/-- What the nodes of a tree hold of some sort, from left to right, a node before what is below
it. -/
def found (take? : Expr → Option α) (e : Expr) : List α :=
  ((e.visits fun _ => false).map (·.1)).filterMap take?

theorem found_eq (take? : Expr → Option α) (e : Expr) :
    e.found take? = (take? e).toList ++ e.children.flatMap (found take?) := by
  rw [found, map_fst_visits, List.filterMap_cons, List.filterMap_flatMap]
  cases take? e <;> rfl

theorem found_of_value?_isSome (h : e.value?.isSome = true) :
    e.found take? = (take? e).toList := by
  rw [found_eq, children_of_value?_isSome h]
  exact List.append_nil _

end Found

/-! ### Terms -/

/-- The terms of a tree from left to right. -/
def terms (e : Expr) : List Expr :=
  ((e.visits fun _ => false).map (·.1)).filter fun d => d.value?.isSome

theorem terms_eq (e : Expr) :
    e.terms = (if e.value?.isSome then [e] else []) ++ e.children.flatMap terms := by
  rw [terms, map_fst_visits, List.filter_cons, List.filter_flatMap]
  split <;> rfl

theorem terms_of_value?_isSome (h : e.value?.isSome = true) : e.terms = [e] := by
  rw [terms_eq, if_pos h, children_of_value?_isSome h]
  rfl

theorem terms_of_value?_eq_none (h : e.value? = none) : e.terms = e.children.flatMap terms := by
  rw [terms_eq, if_neg (by simp [h]), List.nil_append]

end SearchQuery.Expr
