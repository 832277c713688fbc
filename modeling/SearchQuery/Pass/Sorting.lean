import SearchQuery.Pass.Basic
import SearchQuery.Context

/-!
# Taking sort directives out of a query

A search for a sortable field in the field that stands for sorting is a directive. It leaves the
tree and becomes the sort of the query; a later one takes the place of an earlier one.

A directive is a search in a field whose body is a single word. With a group or a phrase as its body
it is an ordinary search, and so is one for a field that cannot be sorted by: both stay, for the
pass that resolves fields to judge. That pass runs after this one in the usual order, since
otherwise the name of the sort would be rejected as a field.

## Main definitions

* `SortSettings.resolve?` — the field that a word asks to sort by
* `SortSettings.directive?` — the field that a node asks to sort by
* `Pass.sorting` — the pass

## Main results

* `SortSettings.transform_cases` — what becomes of a node
-/

namespace SearchQuery

namespace SortSettings

/-- The field that a word asks to sort by, if it can be sorted by. -/
def resolve? (s : SortSettings) (value : String) : Option String :=
  let field := (s.aliases.get? value).getD value
  if s.valid.contains field then some field else none

/-- The field that a node asks to sort by. -/
def directive? (s : SortSettings) : Expr → Option String
  | .field name (.word value) => if name = s.field then s.resolve? value else none
  | _ => none

/-- A directive is removed and noted. -/
def transform (s : SortSettings) : Transform Context := fun e _ c =>
  match s.directive? e with
  | some field => (.remove, { c with sortOrder := some ⟨field, s.direction⟩ })
  | none => (.keep e, c)

/-- What becomes of a node. -/
theorem transform_cases (s : SortSettings) (e : Expr) (parents : List Kind) (c : Context) :
    (∃ field, s.directive? e = some field ∧
      s.transform e parents c = (.remove, { c with sortOrder := some ⟨field, s.direction⟩ })) ∨
    s.directive? e = none ∧ s.transform e parents c = (.keep e, c) := by
  cases h : s.directive? e with
  | some field => exact .inl ⟨field, rfl, by simp only [transform, h]⟩
  | none => exact .inr ⟨rfl, by simp only [transform, h]⟩

theorem transform_descends (s : SortSettings) : s.transform.Descends fun _ e => e.weight :=
  Transform.descends_of_keep_self fun e parents c e' h => by
    obtain ⟨field, -, hstep⟩ | ⟨-, hstep⟩ := s.transform_cases e parents c <;> rw [hstep] at h
    · cases h
    · exact (Outcome.keep.inj h).symm

end SortSettings

/-- The pass that takes sort directives out of a query. -/
def Pass.sorting (s : SortSettings) : Pass Context :=
  .ofTransform .parentsFirst s.transform s.transform_descends

end SearchQuery
