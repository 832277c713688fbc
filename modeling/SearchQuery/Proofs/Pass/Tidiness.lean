import SearchQuery.Proofs.Pass.Conservation
import SearchQuery.Proofs.Pass.Finishing

/-!
# Trees in which nothing is without effect

The pass that removes what has no effect looks at a node once its children have been replaced. One
look is enough: the operands that a group takes over from the groups in it come from groups that
have been looked at already, so there is no group among them, and what a boost by one leaves is
seen by the group around it like any other operand.

## Tidy trees

A tree is tidy if no node of it is a group that is empty or holds a group, a group of alternatives
without alternatives, or a boost by one. What the pass leaves is tidy, and tidy trees are what it
leaves alone, so a second run finds nothing to do. Groups are lost only with their last operand.
In a tree without empty groups there is nothing to lose, and its terms stay as they are.

## Main definitions

* `Expr.Tidy` — no node of the tree is without effect

## Main results

* `Expr.tidy_of_simplified` — what is left of a tree is tidy
* `Expr.Tidy.simplified_eq` — a tidy tree is left alone
* `Expr.Filled.exists_simplified_terms` — the terms stay in their order
* `run_simplification_tidies` — the three together, for the pass
-/

namespace SearchQuery

namespace Expr

variable {e d : Expr} {g : Expr → Option Expr}

/-- The node is a group with operands and no group among them, a group with alternatives, a boost
by another number than one, or none of these. -/
def IsTidyNode : Expr → Prop
  | group operands => operands ≠ [] ∧ ∀ o ∈ operands, o.kind ≠ .group
  | synonyms alternatives => alternatives ≠ []
  | boost _ score => score.sameSize .one = false
  | _ => True

/-- No group in the tree is empty or stands directly in a group, and nothing is boosted by one. -/
def Tidy (e : Expr) : Prop := e.All IsTidyNode

/-! ### Operands -/

theorem Tidy.hasOperands (h : e.Tidy) : e.HasOperands := by
  have hroot := h.root
  cases e with
  | group => exact hroot.1
  | synonyms => exact hroot
  | _ => trivial

/-- The operands of a tidy tree are tidy, and no groups. -/
theorem Tidy.of_mem_operands (h : e.Tidy) (hd : d ∈ e.operands) : d.Tidy ∧ d.kind ≠ .group := by
  cases e with
  | group es => exact ⟨h.child hd, h.root.2 d hd⟩
  | _ =>
    cases List.mem_singleton.1 hd
    exact ⟨h, Kind.noConfusion⟩

theorem tidy_group_spliceGroups {es : List Expr} (hne : es ≠ []) (h : ∀ e ∈ es, e.Tidy) :
    (group (spliceGroups es)).Tidy := by
  have hmem : ∀ d ∈ spliceGroups es, d.Tidy ∧ d.kind ≠ .group := fun d hd => by
    obtain ⟨e, he, hd⟩ := mem_spliceGroups.1 hd
    exact (h e he).of_mem_operands hd
  refine all_group.2 ⟨⟨?_, fun d hd => (hmem d hd).2⟩, fun d hd => (hmem d hd).1⟩
  exact spliceGroups_ne_nil hne fun e he => (h e he).hasOperands

theorem spliceGroups_eq_self {es : List Expr} (h : ∀ e ∈ es, e.kind ≠ .group) :
    spliceGroups es = es := by
  induction es with
  | nil => rfl
  | cons e es ih =>
    rw [spliceGroups_cons, operands_of_ne_group (h e List.mem_cons_self),
      ih fun d hd => h d (List.mem_cons_of_mem e hd)]
    rfl

/-! ### One node -/

/-- A node with operands and tidy children is tidy after it has been looked at. -/
theorem tidy_tidied (he : e.HasOperands) (h : ∀ c ∈ e.children, c.Tidy) :
    (Simplification.tidied e).Tidy := by
  cases e with
  | group es => exact tidy_group_spliceGroups he h
  | synonyms es => exact all_synonyms.2 ⟨he, h⟩
  | boost body score =>
    have hbody : body.Tidy := h body List.mem_cons_self
    rw [Simplification.tidied]
    split
    · exact hbody
    · rename_i hscore
      exact all_boost.2 ⟨by simpa [IsTidyNode] using hscore, hbody⟩
  | _ => exact ⟨trivial, h⟩

theorem IsTidyNode.tidied_eq (h : e.IsTidyNode) : Simplification.tidied e = e := by
  cases e with
  | group es => exact congrArg group (spliceGroups_eq_self h.2)
  | boost body score =>
    have hscore : ¬ score.sameSize .one = true := Bool.eq_false_iff.1 h
    exact if_neg hscore
  | _ => rfl

theorem terms_group (es : List Expr) : (group es).terms = es.flatMap terms :=
  terms_of_value?_eq_none rfl

theorem flatMap_terms_operands (e : Expr) : e.operands.flatMap terms = e.terms := by
  cases e with
  | group es => exact (terms_group es).symm
  | _ => simp [operands]

theorem terms_tidied (e : Expr) : (Simplification.tidied e).terms = e.terms := by
  cases e with
  | group es =>
    rw [Simplification.tidied, terms_group, terms_group]
    induction es with
    | nil => rfl
    | cons e es ih =>
      rw [spliceGroups_cons, List.flatMap_append, flatMap_terms_operands, ih, List.flatMap_cons]
  | boost body score =>
    rw [Simplification.tidied]
    split
    · simp [terms_of_value?_eq_none (e := boost body score) rfl, children]
    · rfl
  | _ => rfl

/-! ### Trees -/

/-- **What is left of a tree is tidy.** -/
theorem tidy_of_simplified {e d : Expr} (h : e.simplified = some d) : d.Tidy := by
  rw [simplified_eq] at h
  obtain ⟨e', he', rfl⟩ := Option.map_eq_some_iff.1 h
  obtain ⟨hoperands, hchildren⟩ := mapChildren_spec he'
  refine tidy_tidied hoperands fun c' hc' => ?_
  obtain ⟨c, hc, _, hsimplified⟩ := hchildren c' hc'
  have hsize : sizeOf c < sizeOf e := sizeOf_lt_of_mem_children hc
  exact tidy_of_simplified hsimplified
termination_by sizeOf e

/-- **A tidy tree is left alone.** -/
theorem Tidy.simplified_eq (h : e.Tidy) : e.simplified = some e := by
  induction h with
  | @intro e root below ih =>
    have htidy : e.Tidy := ⟨root, below⟩
    rw [Expr.simplified_eq, rebuild_eq_self htidy.hasOperands ih, Option.map_some,
      root.tidied_eq]

/-- **The terms stay in their order**, and something is left of a tree without empty groups. -/
theorem Filled.exists_simplified_terms (he : e.Filled) :
    ∃ d, e.simplified = some d ∧ d.terms = e.terms := by
  induction he with
  | @intro e root _ ih =>
    obtain ⟨d, hd, hterms⟩ := exists_rebuild_of_compositional compositional_terms root ih
    exact ⟨_, by rw [Expr.simplified_eq, hd]; rfl, (terms_tidied d).trans hterms⟩

end Expr

/-- **What is left of a tree without what has no effect.** It is tidy, and a second run leaves it
alone, as the pass does with every tidy tree. If the tree has no empty group, something is left, and
it has the terms of the tree from left to right. -/
theorem run_simplification_tidies (t : Expr) (c : Context) :
    (∀ d, (Pass.simplification.run t c).1 = some d →
      d.Tidy ∧ ∀ c', Pass.simplification.run d c' = (some d, c')) ∧
    (t.Tidy → Pass.simplification.run t c = (some t, c)) ∧
    (t.Filled → ∃ d, Pass.simplification.run t c = (some d, c) ∧ d.terms = t.terms) := by
  refine ⟨fun d hd => ?_, fun ht => ?_, fun ht => ?_⟩
  · rw [run_simplification] at hd
    have htidy : d.Tidy := Expr.tidy_of_simplified hd
    exact ⟨htidy, fun c' => by rw [run_simplification, htidy.simplified_eq]⟩
  · rw [run_simplification, ht.simplified_eq]
  · obtain ⟨d, hd, hterms⟩ := ht.exists_simplified_terms
    exact ⟨d, by rw [run_simplification, hd], hterms⟩

/-- A boost by one hides a group from the one around it until it goes. -/
theorem run_simplification_tidies_hidden_group :
    ∃ t d, t = Expr.group [.boost (.group [.word "a", .plus (.word "b")]) .one, .word "c"] ∧
      t.Filled ∧ Pass.simplification.run t {} = (some d, {}) ∧
      d = .group [.word "a", .plus (.word "b"), .word "c"] ∧ d.Tidy ∧
      Pass.simplification.run d {} = (some d, {}) ∧ d.terms = t.terms := by
  have hone : Decimal.one.sameSize .one = true := by decide
  have hword (v : String) : (Expr.word v).simplified = some (.word v) :=
    Expr.simplified_of_value?_isSome rfl
  have hfilled : (Expr.group [.boost (.group [.word "a", .plus (.word "b")]) .one,
      .word "c"]).Filled := by
    simp [Expr.Filled, Expr.HasOperands]
  obtain ⟨hleft, -, hterms⟩ := run_simplification_tidies
    (.group [.boost (.group [.word "a", .plus (.word "b")]) .one, .word "c"]) {}
  obtain ⟨d, hrun, hsame⟩ := hterms hfilled
  have hd : d = .group [.word "a", .plus (.word "b"), .word "c"] := by
    rw [run_simplification] at hrun
    simpa [hword, hone, Expr.gather, Expr.spliceGroups] using hrun.symm
  obtain ⟨htidy, -⟩ := hleft d (congrArg Prod.fst hrun)
  have hagain : Pass.simplification.run d {} = (some d, {}) :=
    (run_simplification_tidies d {}).2.1 htidy
  exact ⟨_, d, rfl, hfilled, hrun, hd, htidy, hagain, hsame⟩

end SearchQuery
