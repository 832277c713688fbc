import SearchQuery.Document.Compile
import SearchQuery.Proofs.Except

/-!
# The clauses of operands

A sign before an operand of a group says how its clause takes part, and what is compiled is the
operand without the sign. With the sign and the rest apart, the operands of a group are compiled one
by one by the same function, and so are alternatives.

## Main definitions

* `Expr.occur`, `Expr.unsigned` — what the sign of an operand says, and the rest of the operand
* `Expr.clause` — the clause of an operand

## Main results

* `Expr.compileOperands_eq_mapM`, `Expr.compileOperandsIn_eq_mapM` — operands one by one
* `Expr.compileAll_eq_mapM`, `Expr.compileAllIn_eq_mapM` — alternatives one by one
-/

namespace SearchQuery

namespace Document

theorem ofDisjuncts_of_ne_nil {ds : List Document} (h : ds ≠ []) : ofDisjuncts ds = best ds := by
  cases ds with
  | nil => exact absurd rfl h
  | cons => rfl

theorem ofClauses_of_ne_nil {cs : List (Occur × Document)} (h : cs ≠ []) :
    ofClauses cs = boolean cs := by
  cases cs with
  | nil => exact absurd rfl h
  | cons => rfl

end Document

namespace Expr

/-- The part that an operand takes in a combination. -/
def occur : Expr → Occur
  | plus _ => .must
  | minus _ => .mustNot
  | _ => .should

/-- The operand without its sign. -/
def unsigned : Expr → Expr
  | plus inner | minus inner => inner
  | e => e

/-- The clause of an operand, if `f` compiles what has no sign. -/
def clause (f : Expr → Except Unsupported Document) (e : Expr) :
    Except Unsupported (Occur × Document) := do
  return (e.occur, ← f e.unsigned)

theorem clause_eq_ok_iff {f : Expr → Except Unsupported Document} {e : Expr}
    {c : Occur × Document} : clause f e = .ok c ↔ e.occur = c.1 ∧ f e.unsigned = .ok c.2 := by
  rw [clause, bind_eq_ok_iff]
  refine ⟨fun ⟨d, hd, h⟩ => ?_, fun ⟨hoccur, hd⟩ => ⟨c.2, hd, by rw [hoccur]; rfl⟩⟩
  cases h
  exact ⟨rfl, hd⟩

theorem sizeOf_unsigned_le (e : Expr) : sizeOf e.unsigned ≤ sizeOf e := by
  cases e <;> simp [unsigned]

/-! ### Outside a field -/

theorem compileAll_eq_mapM (es : List Expr) : compileAll es = es.mapM compile := by
  induction es with
  | nil => rfl
  | cons e es ih => rw [compileAll, List.mapM_cons, ih]

theorem compileOperands_eq_mapM (es : List Expr) :
    compileOperands es = es.mapM (clause compile) := by
  induction es with
  | nil => rfl
  | cons e es ih =>
    rw [List.mapM_cons, ← ih]
    cases e <;> simp [compileOperands, clause, occur, unsigned]

/-! ### In a field -/

variable (name : String)

theorem compileAllIn_eq_mapM (es : List Expr) :
    compileAllIn name es = es.mapM (compileIn name) := by
  induction es with
  | nil => rfl
  | cons e es ih => rw [compileAllIn, List.mapM_cons, ih]

theorem compileOperandsIn_eq_mapM (es : List Expr) :
    compileOperandsIn name es = es.mapM (clause (compileIn name)) := by
  induction es with
  | nil => rfl
  | cons e es ih =>
    rw [List.mapM_cons, ← ih]
    cases e <;> simp [compileOperandsIn, clause, occur, unsigned]

end Expr

end SearchQuery
