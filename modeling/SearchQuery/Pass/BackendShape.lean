import SearchQuery.Pass.Basic
import SearchQuery.Context

/-!
# The shape that the search engine takes

A phrase of one word becomes that word, and a phrase without words is removed. A sign before a
group goes to each of its operands. A field goes down through groups, alternatives, signs and boosts
to the terms.

## One level at a time

Each of these moves one level and is then looked at again as a child of what it moved into, so that
a field reaches the terms however deep they are. A sign moves only if a group stands right below it
when it is looked at. With a field between the two the field moves into the group later, and the
sign stays where it is.

An exclusion before alternatives moves too, since excluding the best of some alternatives excludes
each of them; a requirement before alternatives stays.

A phrase below a distance keeps its quotes, whatever its words.

## Main definitions

* `Expr.pushField` — an expression with a field one level down
* `Pass.backendShape` — the pass

## Main results

* `BackendShape.transform_descends` — every move makes progress
-/

namespace SearchQuery

/-- The expression in a field, with the field one level down if it can go there. -/
def Expr.pushField (name : String) : Expr → Expr
  | .group operands => .group (operands.map (.field name))
  | .synonyms alternatives => .synonyms (alternatives.map (.field name))
  | .plus inner => .plus (.field name inner)
  | .minus inner => .minus (.field name inner)
  | .boost body score => .boost (.field name body) score
  | e => .field name e

namespace BackendShape

/-- What becomes of a phrase: it loses its quotes if it has one word, and goes if it has none. -/
def shapePhrase (value : String) : Outcome :=
  match Text.wordCount value with
  | 0 => .remove
  | 1 => .keep (.word (Text.trimmed value))
  | _ => .keep (.phrase value)

/-- Signs and fields move down, and phrases are shaped unless a distance applies to them. -/
def transform : Transform Context := fun e parents c =>
  match e with
  | .phrase value =>
    if parents.getLast? = some .proximity then (.keep (.phrase value), c)
    else (shapePhrase value, c)
  | .plus (.group operands) => (.keep (.group (operands.map .plus)), c)
  | .minus (.group operands) => (.keep (.group (operands.map .minus)), c)
  | .minus (.synonyms alternatives) => (.keep (.group (alternatives.map .minus)), c)
  | .field name body => (.keep (body.pushField name), c)
  | e => (.keep e, c)

/-- An operand with one more node around it weighs less than all operands with two. -/
theorem weight_lt_of_mem_map {wrap : Expr → Expr} (hwrap : ∀ o, (wrap o).weight = o.weight + 1)
    {operands : List Expr} {d : Expr} (h : d ∈ operands.map wrap) :
    d.weight < Expr.weightAll operands + 2 := by
  obtain ⟨o, ho, rfl⟩ := List.mem_map.1 h
  have := Expr.weight_le_weightAll ho
  rw [hwrap]
  omega

/-- An operand with the field weighs less than the group in the field. -/
theorem weight_lt_of_mem_children_pushField {name : String} {e d : Expr}
    (h : d ∈ (e.pushField name).children) : d.weight < (Expr.field name e).weight := by
  cases e with
  | group operands =>
    refine Nat.lt_of_lt_of_le (weight_lt_of_mem_map (fun _ => rfl) h) ?_
    simp [Expr.weight]
  | synonyms alternatives => exact weight_lt_of_mem_map (fun _ => rfl) h
  | _ =>
    simp only [Expr.pushField, Expr.children, List.mem_singleton] at h
    subst h
    simp [Expr.weight]

theorem children_shapePhrase {value : String} {e' : Expr} (h : shapePhrase value = .keep e') :
    e'.children = [] := by
  rw [shapePhrase] at h
  split at h <;> cases h <;> rfl

/-- Signs, fields and phrases make progress by their weight, although the whole tree may grow. -/
theorem transform_descends : transform.Descends fun _ e => e.weight := by
  intro e parents c e' h d hd
  simp only [transform] at h
  split at h
  · split at h
    · cases h; simp [Expr.children] at hd
    · simp [children_shapePhrase h] at hd
  · cases h
    refine Nat.lt_of_lt_of_le (weight_lt_of_mem_map (fun _ => rfl) hd) ?_
    simp [Expr.weight]
  · cases h
    refine Nat.lt_of_lt_of_le (weight_lt_of_mem_map (fun _ => rfl) hd) ?_
    simp [Expr.weight]
  · cases h
    exact weight_lt_of_mem_map (fun _ => rfl) hd
  · cases h
    exact weight_lt_of_mem_children_pushField hd
  · cases h
    exact Expr.weight_lt_of_mem_children hd

end BackendShape

/-- The pass that brings the tree into the shape that the search engine takes. -/
def Pass.backendShape : Pass Context :=
  .ofTransform .parentsFirst BackendShape.transform BackendShape.transform_descends

end SearchQuery
