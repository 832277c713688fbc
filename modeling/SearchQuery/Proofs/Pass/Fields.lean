import SearchQuery.Proofs.Pass.Filled
import SearchQuery.Proofs.Pass.Notes

/-!
# What the pass over the names of fields leaves

After the pass every search in a field has a valid name. A search that is rejected leaves the tree
or becomes a group, and what a group exposes is looked at as well, because a node is only ever kept
and never left alone for good.

In strict mode the context records that a search was dropped. The pass looks at every node that it
does not drop, so the record is there if and only if some search in the tree is rejected, however
deep it stands. A range may be left before its second bound, and no search is missed as long as a
first bound is only lost when there is a rejected search in it. In a tree that was read the bounds
are terms, and none is lost.

## Main definitions

* `FieldSettings.Rejects` — the node is a search in a field that may not be searched
* `FieldSettings.RecordsBounds` — no range loses its first bound unnoticed

## Main results

* `FieldSettings.isValid_iff` — the valid names
* `FieldSettings.filledIn_of_run` — the names of fields after the pass are valid
* `FieldSettings.hasInvalidFields_run_iff` — what is recorded in strict mode
* `Settings.passes_keepView_blank` — what no pass touches
-/

namespace SearchQuery

open SearchQuery.Expr

namespace FieldSettings

variable {s : FieldSettings} {e e' : Expr} {c : Context} {parents : List Kind}

theorem isValid_iff {name : String} :
    s.isValid name = true ↔ name ∈ s.valid ∧ name ∉ s.invalid := by
  simp [isValid]

/-- A node that is kept is a search in a valid field, if it is a search in a field at all. -/
theorem isValid_of_transform (h : (s.transform e parents c).1 = .keep e') {name : String}
    (hname : e'.fieldName? = some name) : s.isValid name = true := by
  obtain ⟨_, body, -, ⟨hvalid, hstep⟩ | ⟨-, -, hstep⟩ | ⟨-, -, hstep⟩⟩ | ⟨hnofield, hstep⟩ :=
    s.transform_cases e parents c <;> rw [hstep] at h <;> cases h
  · cases hname
    exact hvalid
  · cases hname
  · cases e with
    | field name body => exact absurd rfl (hnofield name body)
    | _ => cases hname

/-- No node is left alone for good. -/
theorem transform_ne_final : (s.transform e parents c).1 ≠ .final e' := by
  intro h
  obtain ⟨_, _, -, ⟨-, hstep⟩ | ⟨-, -, hstep⟩ | ⟨-, -, hstep⟩⟩ | ⟨-, hstep⟩ :=
    s.transform_cases e parents c <;> rw [hstep] at h <;> cases h

theorem filledIn_of_parentsFirst {parents : List Kind} {e e' : Expr} {c : Context}
    (he : e.Filled) (h : ((Pass.fields s).parentsFirst parents e c).1 = some e') :
    e'.FilledIn fun name => s.isValid name = true := by
  rw [Pass.parentsFirst] at h
  split at h
  · rename_i hignored
    cases hignored
  split at h
  · cases h
  · rename_i d t hfinal
    have hfinal' : (s.transform e parents c).1 = .final d := congrArg Prod.fst hfinal
    exact absurd hfinal' transform_ne_final
  · rename_i d t hkeep
    have hkeep' : (s.transform e parents c).1 = .keep d := congrArg Prod.fst hkeep
    have htree : (s.transform e parents c).1.tree? = some d := congrArg Outcome.tree? hkeep'
    have hd : d.Filled := (preserves_filledIn (fun _ _ => trivial) he.filledIn htree).filled
    obtain ⟨hoperands, hbelow⟩ := mapChildren_spec h
    refine ⟨⟨hoperands, fun name hname => ?_⟩, fun d' hd' => ?_⟩
    · rw [(head_mapChildren h).2] at hname
      exact isValid_of_transform hkeep' hname
    · obtain ⟨child, hchild, t, hrun⟩ := hbelow d' hd'
      have hweight : child.weight < e.weight :=
        s.transform_descends e parents c d hkeep' child hchild
      exact filledIn_of_parentsFirst (hd.child hchild) hrun
termination_by e.weight

/-- **Every field that the pass leaves has a valid name.** -/
theorem filledIn_of_run (he : e.Filled) (h : ((Pass.fields s).run e c).1 = some e') :
    e'.FilledIn fun name => s.isValid name = true :=
  filledIn_of_parentsFirst he h

/-! ### What is recorded -/

/-- The node is a search in a field, and the name that its name stands for is not valid. -/
def Rejects (s : FieldSettings) (e : Expr) : Prop :=
  ∃ name, e.fieldName? = some name ∧ s.isValid (s.canonical name) = false

theorem transform_of_rejects (hstrict : s.strict = true) (h : s.Rejects e) (parents : List Kind)
    (c : Context) : s.transform e parents c = (.remove, { c with hasInvalidFields := true }) := by
  obtain ⟨name, hname, hvalid⟩ := h
  cases e with
  | field name' body =>
    cases hname
    simp [transform, hvalid, hstrict]
  | _ => cases hname

/-- A node that is not rejected is kept with its kind and its children. -/
theorem transform_of_not_rejects (h : ¬ s.Rejects e) (parents : List Kind) (c : Context) :
    ∃ e', s.transform e parents c = (.keep e', c) ∧ e'.kind = e.kind ∧
      e'.children = e.children := by
  cases e with
  | field name body =>
    have hvalid : s.isValid (s.canonical name) = true :=
      (Bool.eq_false_or_eq_true _).resolve_right fun hinvalid => h ⟨name, rfl, hinvalid⟩
    exact ⟨.field (s.canonical name) body, by simp [transform, hvalid], rfl, rfl⟩
  | _ => exact ⟨_, rfl, rfl, rfl⟩

/-- A range of which the pass loses the first bound has a rejected search in that bound. -/
def RecordsBounds (s : FieldSettings) (e : Expr) : Prop :=
  e.All fun d => d.kind = .range → ∀ left right, d.children = [left, right] → ∀ parents c,
    ((Pass.fields s).parentsFirst parents left c).1 = none →
      left.Reaches (fun _ => False) s.Rejects

/-- A term is not lost. -/
theorem recordsBounds_of_boundsAreTerms (he : e.BoundsAreTerms) : s.RecordsBounds e := by
  refine he.imp fun d hd => ?_
  intro hkind left right hchildren parents c hnone
  have hterm : left.value?.isSome = true := hd hkind left (by simp [hchildren])
  have hkeep : s.transform left parents c = (.keep left, c) := by
    cases left with
    | word | phrase | regex | doi | url => rfl
    | _ => cases hterm
  rw [Pass.parentsFirst_of_keep rfl hkeep, mapChildren_of_value?_isSome hterm] at hnone
  cases hnone

theorem hasInvalidFields_parentsFirst_iff (hstrict : s.strict = true) {parents : List Kind}
    {e : Expr} {c : Context} (he : s.RecordsBounds e) :
    ((Pass.fields s).parentsFirst parents e c).2.hasInvalidFields = true ↔
      c.hasInvalidFields = true ∨ e.Reaches (fun _ => False) s.Rejects := by
  by_cases hrejects : s.Rejects e
  · have hrun : (Pass.fields s).parentsFirst parents e c =
        (none, { c with hasInvalidFields := true }) :=
      Pass.parentsFirst_of_remove rfl (transform_of_rejects hstrict hrejects parents c)
    have hreaches : e.Reaches (fun _ => False) s.Rejects := .here id hrejects
    simp [hrun, hreaches]
  · obtain ⟨d, htransform, hkind, hchildren⟩ := transform_of_not_rejects hrejects parents c
    have hmem : ∀ child ∈ d.children, child ∈ e.children := fun child h => hchildren ▸ h
    have hlost : ∀ left right il ir, d = range left right il ir → ∀ parents c,
        ((Pass.fields s).parentsFirst parents left c).1 = none →
          left.Reaches (fun _ => False) s.Rejects := by
      rintro left right il ir rfl
      exact he.root hkind.symm left right hchildren.symm
    have hflag := @mapChildren_state_iff Context d
      (fun child _ c => (Pass.fields s).parentsFirst (parents ++ [d.kind]) child c) c
      (fun c => c.hasInvalidFields = true) (fun child => child.Reaches (fun _ => False) s.Rejects)
      (fun child hchild t => by
        have hsize : sizeOf child < sizeOf e := sizeOf_lt_of_mem_children (hmem child hchild)
        exact hasInvalidFields_parentsFirst_iff hstrict (he.child (hmem child hchild)))
      (fun left right il ir hd _ t hnone _ => hlost left right il ir hd _ t hnone)
    rw [Pass.parentsFirst_of_keep rfl htransform, hflag, reaches_iff (e := e), ← hchildren]
    simp [hrejects]
termination_by sizeOf e

/-- **In strict mode the context records that a search was dropped if and only if there is one that
is rejected.** -/
theorem hasInvalidFields_run_iff (hstrict : s.strict = true) (he : e.BoundsAreTerms) :
    ((Pass.fields s).run e c).2.hasInvalidFields = true ↔
      c.hasInvalidFields = true ∨ e.Reaches (fun _ => False) s.Rejects :=
  hasInvalidFields_parentsFirst_iff hstrict (recordsBounds_of_boundsAreTerms he)

/-- A search that is dropped is recorded in one place only. -/
theorem keepsView {α : Type} (s : FieldSettings) {view : Context → α}
    (hview : ∀ c, view { c with hasInvalidFields := true } = view c) :
    s.transform.KeepsView view := by
  intro e parents c
  obtain ⟨_, _, -, ⟨-, hstep⟩ | ⟨-, -, hstep⟩ | ⟨-, -, hstep⟩⟩ | ⟨-, hstep⟩ :=
    s.transform_cases e parents c
  · rw [hstep]
  · rw [hstep]
    exact hview c
  · rw [hstep]
  · rw [hstep]

end FieldSettings

/-- What the settings say about a query without a tree stays as it is, whatever the passes are. -/
theorem Settings.passes_keepView_blank (s : Settings) (engines : Engines) :
    ∀ p ∈ s.passes engines, p.KeepsView Context.blank := by
  intro p hp
  obtain ⟨stage, -, hp⟩ := List.mem_filterMap.1 hp
  by_cases hstage : stage = .fields
  · subst hstage
    cases hp
    exact Pass.keepsView_of_transform (s.fields.keepsView fun _ => rfl)
  · intro e c
    exact congrArg Prod.snd (pass?_keepsView_verdict hstage hp e c)

end SearchQuery
