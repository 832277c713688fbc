import SearchQuery.Expr.Basic

/-!
# The weight of a query tree

A measure of trees by which the passes make progress: what a pass descends into weighs less than
what it was given.

The number of nodes would not do. A pass that looks at a group may pair a word in it with a
correction and then descends into the pair, which has two nodes more than the word. So a group
weighs three more than its operands, which a pair may use up; any other node weighs one more than
its children. A field that goes down into a group stands at every operand afterwards, and the whole
tree may be heavier than before. What is looked at next is one operand with the field, and that is
lighter than the group was.

## Main definitions

* `Expr.weight` — the weight of a tree

## Main results

* `Expr.weight_lt_of_mem_children` — a child weighs less than its node
-/

namespace SearchQuery.Expr

mutual

/-- The weight of a tree. -/
def weight : Expr → Nat
  | word _ | phrase _ | regex _ | doi _ | url _ => 1
  | field _ body => weight body + 1
  | group operands => weightAll operands + 3
  | synonyms alternatives => weightAll alternatives + 1
  | range left right _ _ => weight left + weight right + 1
  | boost body _ => weight body + 1
  | fuzzy term _ => weight term + 1
  | proximity term _ => weight term + 1
  | plus inner => weight inner + 1
  | minus inner => weight inner + 1

/-- The weight of all trees in a list. -/
def weightAll : List Expr → Nat
  | [] => 0
  | e :: es => weight e + weightAll es

end

theorem weight_pos (e : Expr) : 0 < e.weight := by
  cases e <;> simp [weight]

theorem weight_le_weightAll {e : Expr} {es : List Expr} (h : e ∈ es) :
    e.weight ≤ weightAll es := by
  induction es with
  | nil => simp at h
  | cons d ds ih =>
    rw [weightAll]
    rcases List.mem_cons.1 h with rfl | h
    · omega
    · exact Nat.le_trans (ih h) (by omega)

/-- A child weighs less than its node. -/
theorem weight_lt_of_mem_children {e c : Expr} (h : c ∈ e.children) : c.weight < e.weight := by
  cases e with
  | group operands =>
    have : c.weight ≤ weightAll operands := weight_le_weightAll h
    rw [weight]; omega
  | synonyms alternatives =>
    have : c.weight ≤ weightAll alternatives := weight_le_weightAll h
    rw [weight]; omega
  | range left right il ir =>
    simp only [children, List.mem_cons, List.not_mem_nil, or_false] at h
    rcases h with rfl | rfl <;> rw [weight] <;> omega
  | word | phrase | regex | doi | url => simp [children] at h
  | _ =>
    simp only [children, List.mem_cons, List.not_mem_nil, or_false] at h
    subst h
    simp [weight]

end SearchQuery.Expr
