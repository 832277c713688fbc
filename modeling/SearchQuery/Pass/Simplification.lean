import SearchQuery.Pass.Basic
import SearchQuery.Context

/-!
# Removing what has no effect

A group directly in a group gives its operands to it, and a boost by one is removed. Children come
first, so a group sees operands that are flat already, and one look at each node is enough.

A group with a single operand stays a group, and so does the group at the root. The weight is
compared by size, so `^1.0` goes as well.

## Main definitions

* `Expr.spliceGroups` — the operands with those of inner groups in their places
* `Pass.simplification` — the pass

## Main results

* `Simplification.transform_descends` — what is kept weighs no more
-/

namespace SearchQuery

/-- The operands with those of inner groups in their places. -/
def Expr.spliceGroups : List Expr → List Expr
  | [] => []
  | .group inner :: es => inner ++ spliceGroups es
  | e :: es => e :: spliceGroups es

namespace Simplification

/-- Inner groups are spliced in, and boosts by one go. -/
def transform : Transform Context := fun e _ c =>
  match e with
  | .group operands => (.keep (.group (Expr.spliceGroups operands)), c)
  | .boost body score =>
    if score.sameSize .one then (.keep body, c) else (.keep (.boost body score), c)
  | e => (.keep e, c)

theorem weightAll_append (as bs : List Expr) :
    Expr.weightAll (as ++ bs) = Expr.weightAll as + Expr.weightAll bs := by
  induction as with
  | nil => simp [Expr.weightAll]
  | cons a as ih => simp [Expr.weightAll, ih]; omega

/-- Splicing loses the weight of the inner groups. -/
theorem weightAll_spliceGroups_le (es : List Expr) :
    Expr.weightAll (Expr.spliceGroups es) ≤ Expr.weightAll es := by
  fun_induction Expr.spliceGroups es with
  | case1 => simp
  | case2 inner es ih => simp only [weightAll_append, Expr.weightAll, Expr.weight]; omega
  | case3 e es _ ih => simp only [Expr.weightAll]; omega

/-- What is kept weighs no more than what was there. -/
theorem transform_descends : transform.Descends fun _ e => e.weight := by
  intro e parents c e' h d hd
  simp only [transform] at h
  split at h
  · rename_i operands
    cases h
    have : d.weight ≤ Expr.weightAll (Expr.spliceGroups operands) := Expr.weight_le_weightAll hd
    have := weightAll_spliceGroups_le operands
    simp only [Expr.weight]
    omega
  · split at h
    · cases h
      have := Expr.weight_lt_of_mem_children hd
      simp only [Expr.weight]
      omega
    · cases h
      exact Expr.weight_lt_of_mem_children hd
  · cases h
    exact Expr.weight_lt_of_mem_children hd

end Simplification

/-- The pass that removes what has no effect. -/
def Pass.simplification : Pass Context :=
  .ofTransform .childrenFirst Simplification.transform Simplification.transform_descends

end SearchQuery
