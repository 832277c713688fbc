import Mathlib.Algebra.Field.Rat
import Mathlib.Tactic.FieldSimp
import Mathlib.Tactic.Ring
import SearchQuery.Proofs.Decimal.Text

/-!
# Decimal numbers of the same size

The size of a decimal number is a rational number. A size can be written with different numbers of
places, and zero with a sign, but it has one normal form: a place that is zero is not the last one,
and zero has no sign. The text of a number shows its sign, its digits and its places. So two numbers
have the same size exactly if their normal forms are written alike.

## Main definitions

* `Decimal.size` — the rational number
* `Decimal.Reduced` — the numbers that are their own normal form

## Main results

* `Decimal.sameSize_iff_size_eq` — what is compared
* `Decimal.eq_of_reduced` — a size has one normal form
* `Decimal.text_injective` — different numbers are written differently
* `Decimal.normalize_eq_iff_sameSize` — numbers of the same size have the same normal form
-/

namespace SearchQuery.Decimal

open Number (powerOfTen powerOfTen_pos powerOfTen_succ)

variable {a b : Decimal}

/-! ### Sizes -/

/-- The rational number that a decimal number stands for. -/
def size (d : Decimal) : ℚ := d.signedCoefficient / powerOfTen d.places

theorem sameSize_iff_size_eq : a.sameSize b = true ↔ a.size = b.size := by
  have hpos (d : Decimal) : (powerOfTen d.places : ℚ) ≠ 0 :=
    Nat.cast_ne_zero.2 (powerOfTen_pos d.places).ne'
  rw [sameSize, beq_iff_eq, size, size, div_eq_div_iff (hpos a) (hpos b)]
  exact_mod_cast Iff.rfl

theorem size_normalize (d : Decimal) : d.normalize.size = d.size :=
  sameSize_iff_size_eq.1 (sameSize_normalize d)

@[simp] theorem natAbs_signedCoefficient (d : Decimal) :
    d.signedCoefficient.natAbs = d.coefficient := by
  rw [signedCoefficient]
  split <;> simp

/-! ### Normal forms -/

/-- The last place is not zero, and zero has no sign. -/
structure Reduced (d : Decimal) : Prop where
  /-- There are no places, or the last one is not zero. -/
  last : d.places = 0 ∨ d.coefficient % 10 ≠ 0
  /-- What has a sign is not zero. -/
  sign : d.negative = true → d.coefficient ≠ 0

theorem dropZeros_last (c p : Nat) : (dropZeros c p).2 = 0 ∨ (dropZeros c p).1 % 10 ≠ 0 := by
  induction p generalizing c with
  | zero => exact .inl rfl
  | succ p ih =>
    rw [dropZeros]
    split
    · exact ih (c / 10)
    · rename_i hlast
      exact .inr hlast

theorem reduced_normalize (d : Decimal) : d.normalize.Reduced where
  last := dropZeros_last d.coefficient d.places
  sign h hzero := by
    simp only [normalize, Bool.and_eq_true, bne_iff_ne] at h
    exact h.2 (eq_zero_of_dropZeros hzero)

/-- Of two numbers of the same size, the one with more places has a zero for its last place. -/
theorem places_le_of_reduced (hb : b.Reduced) (h : a.sameSize b = true) :
    b.places ≤ a.places := by
  rw [sameSize, beq_iff_eq] at h
  have hcoefficients := congrArg Int.natAbs h
  simp only [Int.natAbs_mul, natAbs_signedCoefficient, Int.natAbs_natCast] at hcoefficients
  by_contra hlt
  obtain ⟨k, hk⟩ := Nat.exists_eq_add_of_lt (Nat.lt_of_not_le hlt)
  have hpower : powerOfTen b.places = powerOfTen a.places * (powerOfTen k * 10) := by
    rw [hk, Nat.add_assoc, ← powerOfTen_succ]
    exact pow_add 10 a.places (k + 1)
  have hcoefficient : b.coefficient = a.coefficient * powerOfTen k * 10 := by
    refine Nat.eq_of_mul_eq_mul_right (powerOfTen_pos a.places) (hcoefficients.symm.trans ?_)
    rw [hpower]
    ring
  rcases hb.last with hzero | hlast
  · omega
  · exact hlast (by rw [hcoefficient, Nat.mul_mod_left])

/-- **A size has one normal form.** -/
theorem eq_of_reduced (ha : a.Reduced) (hb : b.Reduced) (h : a.sameSize b = true) : a = b := by
  have hplaces : a.places = b.places :=
    Nat.le_antisymm (places_le_of_reduced ha (sameSize_comm a b ▸ h)) (places_le_of_reduced hb h)
  rw [sameSize, beq_iff_eq, hplaces] at h
  have hsigned : a.signedCoefficient = b.signedCoefficient :=
    Int.eq_of_mul_eq_mul_right (by exact_mod_cast (powerOfTen_pos b.places).ne') h
  have hcoefficient : a.coefficient = b.coefficient := by
    simpa using congrArg Int.natAbs hsigned
  have hnegative : a.negative = b.negative := by
    have hsigna := ha.sign
    have hsignb := hb.sign
    rw [signedCoefficient, signedCoefficient, hcoefficient] at hsigned
    rw [hcoefficient] at hsigna
    cases hna : a.negative <;> cases hnb : b.negative <;> simp_all
  cases a
  cases b
  simp_all

/-- **Numbers of the same size have the same normal form.** -/
theorem normalize_eq_iff_sameSize : a.normalize = b.normalize ↔ a.sameSize b = true := by
  rw [sameSize_iff_size_eq, ← size_normalize a, ← size_normalize b]
  refine ⟨congrArg size, fun h => ?_⟩
  exact eq_of_reduced (reduced_normalize a) (reduced_normalize b) (sameSize_iff_size_eq.2 h)

/-! ### Texts -/

/-- The text of a number begins with a minus sign exactly if the number has one. -/
theorem head?_chars_iff (d : Decimal) : d.chars.head? = some '-' ↔ d.negative = true := by
  cases hnegative : d.negative with
  | true => simp [chars, hnegative]
  | false =>
    refine ⟨fun hhead => ?_, Bool.noConfusion⟩
    have hnumeral := isNumeralChar_of_mem_chars hnegative (List.mem_of_mem_head? hhead)
    exact absurd hnumeral (by decide)

/-- **Different numbers are written differently.** -/
theorem text_injective : Function.Injective text := by
  intro a b h
  have hchars : a.chars = b.chars := String.ofList_injective h
  have hnegative : a.negative = b.negative :=
    Bool.eq_iff_iff.2 (by rw [← head?_chars_iff, ← head?_chars_iff, hchars])
  rw [chars, chars, hnegative] at hchars
  -- what follows the sign is read back as the number without it
  have hread (d : Decimal) :=
    readDigits_positional { d with negative := false } rfl
  have hunsigned := hread a
  rw [List.append_cancel_left hchars, hread b] at hunsigned
  have hparts := Option.some.inj hunsigned
  cases a
  cases b
  simp_all

end SearchQuery.Decimal
