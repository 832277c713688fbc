/-!
# Words that differ by few edits

An edit inserts, deletes or replaces a character or swaps two neighbours, and no character takes
part in two edits.

## The relation and the check

The relation says what an edit is, from left to right with one constructor each. The check looks for
such a sequence with a number of edits that is left: characters that agree may be kept, and while
edits are left each kind is tried, so it follows the relation constructor by constructor. No more
than two edits are ever asked for. That the check decides the relation is all that has to be known
about it.

## Main definitions

* `Edits` — one word turns into another by exactly so many edits
* `withinEdits` — whether one word turns into another by at most so many edits

## Main results

* `withinEdits_eq_true_iff` — the check decides the relation
-/

namespace SearchQuery.Language

/-- `Edits n xs ys` says that `xs` turns into `ys` by `n` edits, read from left to right. -/
inductive Edits : Nat → List Char → List Char → Prop
  /-- Nothing is left of either word. -/
  | nil : Edits 0 [] []
  /-- A character stays. -/
  | keep {n xs ys} (c : Char) : Edits n xs ys → Edits n (c :: xs) (c :: ys)
  /-- A character is deleted. -/
  | delete {n xs ys} (c : Char) : Edits n xs ys → Edits (n + 1) (c :: xs) ys
  /-- A character is inserted. -/
  | insert {n xs ys} (c : Char) : Edits n xs ys → Edits (n + 1) xs (c :: ys)
  /-- A character is replaced. -/
  | replace {n xs ys} (c d : Char) : Edits n xs ys → Edits (n + 1) (c :: xs) (d :: ys)
  /-- Two neighbours are swapped. -/
  | swap {n xs ys} (c d : Char) : Edits n xs ys → Edits (n + 1) (c :: d :: xs) (d :: c :: ys)

/-- Whether the word `xs` turns into `ys` by at most `n` edits. -/
def withinEdits (n : Nat) : List Char → List Char → Bool
  | [], ys => ys.length ≤ n
  | xs, [] => xs.length ≤ n
  | c :: xs, d :: ys =>
    (c == d && withinEdits n xs ys) ||
    match n with
    | 0 => false
    | n + 1 =>
      withinEdits n xs (d :: ys) || withinEdits n (c :: xs) ys || withinEdits n xs ys ||
      match xs, ys with
      | c' :: xs', d' :: ys' => c == d' && c' == d && withinEdits n xs' ys'
      | _, _ => false
termination_by xs ys => xs.length + ys.length

theorem Edits.deleteAll (xs : List Char) : Edits xs.length xs [] := by
  induction xs with
  | nil => exact .nil
  | cons c xs ih => exact .delete c ih

theorem Edits.insertAll (ys : List Char) : Edits ys.length [] ys := by
  induction ys with
  | nil => exact .nil
  | cons c ys ih => exact .insert c ih

@[simp] theorem withinEdits_nil_right (n : Nat) (xs : List Char) :
    withinEdits n xs [] = decide (xs.length ≤ n) := by
  cases xs <;> simp [withinEdits]

@[simp] theorem withinEdits_nil_left (n : Nat) (ys : List Char) :
    withinEdits n [] ys = decide (ys.length ≤ n) := by
  simp [withinEdits]

theorem withinEdits_zero_cons_cons (c d : Char) (xs ys : List Char) :
    withinEdits 0 (c :: xs) (d :: ys) = (c == d && withinEdits 0 xs ys) := by
  rw [withinEdits]; simp

/-- While an edit is left, the first characters are kept or some edit is made. -/
theorem withinEdits_succ_cons_cons (n : Nat) (c d : Char) (xs ys : List Char) :
    withinEdits (n + 1) (c :: xs) (d :: ys) =
      (c == d && withinEdits (n + 1) xs ys ||
        (withinEdits n xs (d :: ys) || withinEdits n (c :: xs) ys || withinEdits n xs ys ||
          match xs, ys with
          | c' :: xs', d' :: ys' => c == d' && c' == d && withinEdits n xs' ys'
          | _, _ => false)) := by
  conv => lhs; unfold withinEdits

/-- Words that differ by few edits pass the check. -/
theorem withinEdits_of_edits {m n : Nat} {xs ys : List Char} (h : Edits m xs ys) (hmn : m ≤ n) :
    withinEdits n xs ys = true := by
  induction h generalizing n with
  | nil => simp
  | keep c _ ih =>
    cases n with
    | zero => simp [withinEdits_zero_cons_cons, ih hmn]
    | succ n => simp [withinEdits_succ_cons_cons, ih hmn]
  | @delete k xs ys c _ ih =>
    obtain ⟨n, rfl⟩ : ∃ k, n = k + 1 := ⟨n - 1, by omega⟩
    have ih := @ih n (by omega)
    cases ys with
    | nil => simpa using ih
    | cons d ys => simp [withinEdits_succ_cons_cons, ih]
  | @insert k xs ys c _ ih =>
    obtain ⟨n, rfl⟩ : ∃ k, n = k + 1 := ⟨n - 1, by omega⟩
    have ih := @ih n (by omega)
    cases xs with
    | nil => simpa using ih
    | cons d xs => simp [withinEdits_succ_cons_cons, ih]
  | replace c d _ ih =>
    obtain ⟨n, rfl⟩ : ∃ k, n = k + 1 := ⟨n - 1, by omega⟩
    simp [withinEdits_succ_cons_cons, @ih n (by omega)]
  | swap c d _ ih =>
    obtain ⟨n, rfl⟩ : ∃ k, n = k + 1 := ⟨n - 1, by omega⟩
    simp [withinEdits_succ_cons_cons, @ih n (by omega)]

/-- Words that pass the check differ by few edits. -/
theorem edits_of_withinEdits {n : Nat} {xs ys : List Char} (h : withinEdits n xs ys = true) :
    ∃ m, m ≤ n ∧ Edits m xs ys := by
  induction hk : xs.length + ys.length using Nat.strongRecOn generalizing n xs ys with
  | ind k ih =>
    subst hk
    match n, xs, ys with
    | n, [], ys => exact ⟨ys.length, by simpa using h, .insertAll ys⟩
    | n, c :: xs, [] => exact ⟨(c :: xs).length, by simpa using h, .deleteAll (c :: xs)⟩
    | 0, c :: xs, d :: ys =>
      simp only [withinEdits_zero_cons_cons, Bool.and_eq_true, beq_iff_eq] at h
      obtain ⟨rfl, h⟩ := h
      obtain ⟨m, hm, e⟩ := ih _ (by simp; omega) h rfl
      exact ⟨m, hm, .keep c e⟩
    | n + 1, c :: xs, d :: ys =>
      simp only [withinEdits_succ_cons_cons, Bool.or_eq_true, Bool.and_eq_true, beq_iff_eq] at h
      rcases h with ⟨rfl, h⟩ | ((h | h) | h) | h
      · obtain ⟨m, hm, e⟩ := ih _ (by simp; omega) h rfl
        exact ⟨m, hm, .keep c e⟩
      · obtain ⟨m, hm, e⟩ := ih _ (by simp) h rfl
        exact ⟨m + 1, by omega, .delete c e⟩
      · obtain ⟨m, hm, e⟩ := ih _ (by simp) h rfl
        exact ⟨m + 1, by omega, .insert d e⟩
      · obtain ⟨m, hm, e⟩ := ih _ (by simp; omega) h rfl
        exact ⟨m + 1, by omega, .replace c d e⟩
      · rcases xs with _ | ⟨c', xs⟩ <;> rcases ys with _ | ⟨d', ys⟩ <;>
          simp only [Bool.and_eq_true, beq_iff_eq, Bool.false_eq_true] at h
        obtain ⟨⟨rfl, rfl⟩, h⟩ := h
        obtain ⟨m, hm, e⟩ := ih _ (by simp; omega) h rfl
        exact ⟨m + 1, by omega, .swap _ _ e⟩

/-- The check decides whether words differ by few edits. -/
theorem withinEdits_eq_true_iff {n : Nat} {xs ys : List Char} :
    withinEdits n xs ys = true ↔ ∃ m, m ≤ n ∧ Edits m xs ys :=
  ⟨edits_of_withinEdits, fun ⟨_, hmn, h⟩ => withinEdits_of_edits h hmn⟩

end SearchQuery.Language
