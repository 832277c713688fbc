import SearchQuery.Pass.Basic
import SearchQuery.Context

/-!
# Resolving the names of fields

An alias is replaced by the name it stands for, once. A search in a field that may not be searched
becomes a group of the name and the expression, as if they had been typed without the colon; in
strict mode it is dropped and the loss is noted.

A name is judged after its alias is replaced, and a name that is listed both as valid and as invalid
is invalid. The group that a rejected search becomes is looked into, since its body may hold other
searches. The word in it is the name after its alias was replaced, and not what was typed.

## Main definitions

* `FieldSettings.canonical` — the name that a name stands for
* `FieldSettings.isValid` — whether a field may be searched
* `Pass.fields` — the pass

## Main results

* `FieldSettings.transform_cases` — what becomes of a node
-/

namespace SearchQuery

namespace FieldSettings

/-- The name that a name stands for. -/
def canonical (s : FieldSettings) (name : String) : String := (s.aliases.get? name).getD name

/-- Whether a field may be searched. -/
def isValid (s : FieldSettings) (name : String) : Bool :=
  s.valid.contains name && !s.invalid.contains name

/-- A search in a field takes the name that its name stands for, or is rejected. -/
def transform (s : FieldSettings) : Transform Context := fun e _ c =>
  match e with
  | .field name body =>
    let name := s.canonical name
    if s.isValid name then (.keep (.field name body), c)
    else if s.strict then (.remove, { c with hasInvalidFields := true })
    else (.keep (.group [.word name, body]), c)
  | e => (.keep e, c)

/-- What becomes of a search in a field, while any other node is kept as it is. -/
theorem transform_cases (s : FieldSettings) (e : Expr) (parents : List Kind) (c : Context) :
    (∃ name body, e = .field name body ∧
      (s.isValid (s.canonical name) = true ∧
          s.transform e parents c = (.keep (.field (s.canonical name) body), c) ∨
        s.isValid (s.canonical name) = false ∧ s.strict = true ∧
          s.transform e parents c = (.remove, { c with hasInvalidFields := true }) ∨
        s.isValid (s.canonical name) = false ∧ s.strict = false ∧
          s.transform e parents c = (.keep (.group [.word (s.canonical name), body]), c))) ∨
    (∀ name body, e ≠ .field name body) ∧ s.transform e parents c = (.keep e, c) := by
  cases e with
  | field name body =>
    refine .inl ⟨name, body, rfl, ?_⟩
    cases hvalid : s.isValid (s.canonical name) with
    | true => exact .inl ⟨rfl, if_pos hvalid⟩
    | false =>
      refine .inr ?_
      cases hstrict : s.strict with
      | true => exact .inl ⟨rfl, rfl, by simp [transform, hvalid, hstrict]⟩
      | false => exact .inr ⟨rfl, rfl, by simp [transform, hvalid, hstrict]⟩
  | _ => exact .inr ⟨fun _ _ => Expr.noConfusion, rfl⟩

theorem transform_descends (s : FieldSettings) : s.transform.Descends fun _ e => e.weight := by
  intro e parents c e' h d hd
  obtain ⟨name, body, rfl, ⟨-, hstep⟩ | ⟨-, -, hstep⟩ | ⟨-, -, hstep⟩⟩ | ⟨-, hstep⟩ :=
    s.transform_cases e parents c <;> rw [hstep] at h <;> cases h
  · cases List.mem_singleton.1 hd
    simp [Expr.weight]
  · have := body.weight_pos
    simp only [Expr.children, List.mem_cons, List.not_mem_nil, or_false] at hd
    rcases hd with rfl | rfl <;> simp only [Expr.weight] <;> omega
  · exact Expr.weight_lt_of_mem_children hd

end FieldSettings

/-- The pass that resolves the names of fields and rejects unknown ones. -/
def Pass.fields (s : FieldSettings) : Pass Context :=
  .ofTransform .parentsFirst s.transform s.transform_descends

end SearchQuery
