/-!
# Computations that may fail

A computation in steps has an answer exactly when each step has one, and a computation on each
member of a list has one exactly when it has one for each member. Otherwise the first step that has
none says why. These are the only facts about `do` blocks that the rest of the theory needs.

## Main definitions

* `failure?` — why a computation has no answer

## Main results

* `bind_eq_ok_iff`, `bind_eq_error_iff` — two steps in a row
* `mapM_eq_ok_iff` — the answers for the members of a list
* `mapM_eq_error_iff` — the first member of a list that has none
* `failure?_bind`, `failure?_mapM` — the first failure counts
-/

namespace SearchQuery

variable {ε α β γ : Type}

theorem bind_eq_ok_iff {x : Except ε α} {f : α → Except ε β} {b : β} :
    x >>= f = .ok b ↔ ∃ a, x = .ok a ∧ f a = .ok b := by
  cases x with
  | error err =>
    refine ⟨fun h => ?_, fun ⟨a, h, _⟩ => ?_⟩ <;> cases h
  | ok a =>
    refine ⟨fun h => ⟨a, rfl, h⟩, fun ⟨a', h, hf⟩ => ?_⟩
    cases h
    exact hf

theorem bind_eq_error_iff {x : Except ε α} {f : α → Except ε β} {err : ε} :
    x >>= f = .error err ↔ x = .error err ∨ ∃ a, x = .ok a ∧ f a = .error err := by
  cases x with
  | error err' =>
    refine ⟨fun h => ?_, ?_⟩
    · cases h
      exact .inl rfl
    · rintro (h | ⟨a, h, -⟩) <;> cases h
      rfl
  | ok a =>
    refine ⟨fun h => .inr ⟨a, rfl, h⟩, ?_⟩
    rintro (h | ⟨a', h, hf⟩) <;> cases h
    exact hf

theorem bind_error {x : Except ε α} {err : ε} (h : x = .error err) (f : α → Except ε β) :
    x >>= f = .error err :=
  bind_eq_error_iff.2 (.inl h)

theorem map_eq_ok_iff {x : Except ε α} {f : α → β} {b : β} :
    x.map f = .ok b ↔ ∃ a, x = .ok a ∧ f a = b := by
  cases x <;> simp [Except.map]

/-- What becomes of the answer of two steps becomes of that of the second one. -/
theorem map_bind_eq (x : Except ε α) (f : α → Except ε β) (g : β → γ) :
    (x >>= f).map g = x >>= fun a => (f a).map g := by
  cases x <;> rfl

theorem eq_error_of_bind_pure {x : Except ε α} {f : α → β} {err : ε}
    (h : x >>= (fun a => pure (f a)) = .error err) : x = .error err := by
  rcases bind_eq_error_iff.1 h with h | ⟨a, -, h⟩
  · exact h
  · cases h

theorem mapM_eq_ok_iff {f : α → Except ε β} {xs : List α} {ys : List β} :
    xs.mapM f = .ok ys ↔ xs.map f = ys.map .ok := by
  induction xs generalizing ys with
  | nil =>
    rw [List.mapM_nil, List.map_nil]
    cases ys with
    | nil => exact ⟨fun _ => rfl, fun _ => rfl⟩
    | cons y ys => refine ⟨fun h => ?_, fun h => ?_⟩ <;> cases h
  | cons x xs ih =>
    rw [List.mapM_cons, bind_eq_ok_iff]
    refine ⟨fun ⟨y, hy, h⟩ => ?_, fun h => ?_⟩
    · obtain ⟨ys', hys', h⟩ := bind_eq_ok_iff.1 h
      cases h
      rw [List.map_cons, List.map_cons, hy, ih.1 hys']
    · cases ys with
      | nil => cases h
      | cons y ys =>
        obtain ⟨hy, hys⟩ := List.cons.inj h
        exact ⟨y, hy, bind_eq_ok_iff.2 ⟨ys, ih.2 hys, rfl⟩⟩

theorem exists_of_mem_mapM {f : α → Except ε β} {xs : List α} {ys : List β} {y : β}
    (h : xs.mapM f = .ok ys) (hy : y ∈ ys) : ∃ x ∈ xs, f x = .ok y := by
  have hmem : Except.ok y ∈ xs.map f := mapM_eq_ok_iff.1 h ▸ List.mem_map_of_mem hy
  exact List.mem_map.1 hmem

theorem exists_mem_of_mapM {f : α → Except ε β} {xs : List α} {ys : List β} {x : α}
    (h : xs.mapM f = .ok ys) (hx : x ∈ xs) : ∃ y ∈ ys, f x = .ok y := by
  have hmem : f x ∈ ys.map Except.ok := mapM_eq_ok_iff.1 h ▸ List.mem_map_of_mem hx
  obtain ⟨y, hy, heq⟩ := List.mem_map.1 hmem
  exact ⟨y, hy, heq.symm⟩

/-- Some answer has a property if some member has one that says the same. -/
theorem exists_mem_mapM_iff {f : α → Except ε β} {xs : List α} {ys : List β} {P : β → Prop}
    {Q : α → Prop} (h : xs.mapM f = .ok ys) (hf : ∀ x ∈ xs, ∀ y, f x = .ok y → (P y ↔ Q x)) :
    (∃ y ∈ ys, P y) ↔ ∃ x ∈ xs, Q x := by
  constructor
  · rintro ⟨y, hy, hP⟩
    obtain ⟨x, hx, hfx⟩ := exists_of_mem_mapM h hy
    exact ⟨x, hx, (hf x hx y hfx).1 hP⟩
  · rintro ⟨x, hx, hQ⟩
    obtain ⟨y, hy, hfx⟩ := exists_mem_of_mapM h hx
    exact ⟨y, hy, (hf x hx y hfx).2 hQ⟩

theorem mapM_ne_nil {f : α → Except ε β} {xs : List α} {ys : List β} (h : xs.mapM f = .ok ys)
    (hxs : xs ≠ []) : ys ≠ [] := by
  rintro rfl
  exact hxs (List.map_eq_nil_iff.1 (mapM_eq_ok_iff.1 h))

/-- The answers for the members of a list in another order. -/
theorem exists_mapM_of_perm {f : α → Except ε β} {xs xs' : List α} {ys : List β}
    (hperm : xs.Perm xs') (h : xs.mapM f = .ok ys) :
    ∃ ys', xs'.mapM f = .ok ys' ∧ ys.Perm ys' := by
  induction hperm generalizing ys with
  | nil => exact ⟨ys, h, .refl ys⟩
  | cons x hperm ih =>
    rw [mapM_eq_ok_iff] at h
    rcases ys with _ | ⟨y, ys⟩
    · cases h
    obtain ⟨hy, hys⟩ := List.cons.inj h
    obtain ⟨ys', hys', hperm'⟩ := ih (mapM_eq_ok_iff.2 hys)
    refine ⟨y :: ys', mapM_eq_ok_iff.2 ?_, hperm'.cons y⟩
    rw [List.map_cons, List.map_cons, hy, mapM_eq_ok_iff.1 hys']
  | swap x x' xs =>
    rw [mapM_eq_ok_iff] at h
    rcases ys with _ | ⟨y', _ | ⟨y, ys⟩⟩
    · simp at h
    · simp at h
    obtain ⟨hy', h⟩ := List.cons.inj h
    obtain ⟨hy, hys⟩ := List.cons.inj h
    refine ⟨y :: y' :: ys, mapM_eq_ok_iff.2 ?_, .swap y y' ys⟩
    simp only [List.map_cons, hy, hy', hys]
  | trans _ _ ih ih' =>
    obtain ⟨ys', hys', hperm⟩ := ih h
    obtain ⟨ys'', hys'', hperm'⟩ := ih' hys'
    exact ⟨ys'', hys'', hperm.trans hperm'⟩

/-- A second step on each member is a second step on each answer of the first one. -/
theorem mapM_bind_eq {f : α → Except ε β} {g : β → Except ε γ} {xs : List α} {ys : List β}
    (h : xs.mapM f = .ok ys) : xs.mapM (fun x => f x >>= g) = ys.mapM g := by
  induction xs generalizing ys with
  | nil =>
    cases h
    rfl
  | cons x xs ih =>
    rw [List.mapM_cons] at h
    obtain ⟨y, hy, h⟩ := bind_eq_ok_iff.1 h
    obtain ⟨ys, hys, h⟩ := bind_eq_ok_iff.1 h
    cases h
    rw [List.mapM_cons, List.mapM_cons, ih hys, hy]
    rfl

/-! ### The first failure -/

/-- A computation on each member of a list fails like that on the first member for which it
does. -/
theorem mapM_eq_error_iff {f : α → Except ε β} {xs : List α} {err : ε} :
    xs.mapM f = .error err ↔
      ∃ before x after, xs = before ++ x :: after ∧ (∀ y ∈ before, ∃ z, f y = .ok z) ∧
        f x = .error err := by
  induction xs with
  | nil =>
    refine ⟨fun h => ?_, fun ⟨before, x, after, h, _⟩ => ?_⟩
    · cases h
    · cases before <;> cases h
  | cons x xs ih =>
    rw [List.mapM_cons, bind_eq_error_iff]
    constructor
    · rintro (h | ⟨y, hy, h⟩)
      · exact ⟨[], x, xs, rfl, by simp, h⟩
      · obtain ⟨before, x', after, rfl, hbefore, h⟩ := ih.1 (eq_error_of_bind_pure h)
        exact ⟨x :: before, x', after, rfl, List.forall_mem_cons.2 ⟨⟨y, hy⟩, hbefore⟩, h⟩
    · rintro ⟨before, x', after, heq, hbefore, h⟩
      cases before with
      | nil =>
        cases heq
        exact .inl h
      | cons _ before =>
        cases heq
        obtain ⟨⟨y, hy⟩, hbefore⟩ := List.forall_mem_cons.1 hbefore
        exact .inr ⟨y, hy, bind_error (ih.2 ⟨before, x', after, rfl, hbefore, h⟩) _⟩

/-- Why a computation has no answer. -/
def failure? : Except ε α → Option ε
  | .error err => some err
  | .ok _ => none

theorem failure?_eq_some_iff {x : Except ε α} {err : ε} :
    failure? x = some err ↔ x = .error err := by
  cases x <;> simp [failure?]

/-- The first of two steps that fails is why both of them do. -/
theorem failure?_bind {x : Except ε α} {f : α → Except ε β} {o : Option ε}
    (h : ∀ a, failure? (f a) = o) : failure? (x >>= f) = (failure? x).or o := by
  cases x with
  | error err => rfl
  | ok a => exact h a

theorem failure?_bind_pure (x : Except ε α) (f : α → β) :
    failure? (x >>= fun a => pure (f a)) = failure? x := by
  cases x <;> rfl

/-- The members of a list fail like the first of them that does, if each one fails like the head of
some list. -/
theorem failure?_mapM {f : α → Except ε β} {g : α → List γ} {k : γ → ε} {xs : List α}
    (h : ∀ x ∈ xs, failure? (f x) = (g x).head?.map k) :
    failure? (xs.mapM f) = (xs.flatMap g).head?.map k := by
  induction xs with
  | nil => rfl
  | cons x xs ih =>
    rw [List.forall_mem_cons] at h
    rw [List.mapM_cons, failure?_bind fun _ => failure?_bind_pure _ _, h.1, ih h.2,
      List.flatMap_cons, List.head?_append, Option.map_or]

end SearchQuery
