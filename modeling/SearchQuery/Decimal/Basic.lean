import SearchQuery.Number.Digits

/-!
# Decimal numbers

Scores and distances are decimal numbers with at most 28 places and a coefficient below `2 ^ 96`.

## Numbers of the same size

The number of places is part of a value: `2.50` and `2.5` are different values of the same size. So
is the sign, which a number that was rounded to zero keeps. Trees are compared by the size of their
numbers, and what is written of a tree or a document is the normal form, with the fewest places and
no sign at zero.

## Bounds

The bounds of the coefficient and of the places are fields of the structure, so that no operation
can leave them unseen. An operation that might leave them either has no answer, like
`Decimal.ofParts?`, or has to show that it stays. Dropping zeros stays because both the coefficient
and the places only fall.

## Main definitions

* `Decimal` — a sign, a coefficient and a number of places
* `Decimal.ofParts?` — the decimal number with given parts, when they are in range
* `Decimal.normalize` — the same size with the fewest places
* `Decimal.sameSize` — equality of size
* `Decimal.reciprocal` — `1 / n`, rounded to four places

## Main results

* `Decimal.sameSize_normalize` — normalizing keeps the size
-/

namespace SearchQuery

/-- All coefficients are below this. -/
def Decimal.coefficientBound : Nat := Nat.pow 2 96

/-- The greatest number of places. -/
def Decimal.maxPlaces : Nat := 28

/-- A decimal number, `coefficient / 10 ^ places` with a sign. -/
structure Decimal where
  /-- Whether a minus sign stands in front. -/
  negative : Bool
  /-- The digits without the point. -/
  coefficient : Nat
  /-- How many of the digits stand after the point. -/
  places : Nat
  /-- The coefficient fits into 96 bits. -/
  coefficient_lt : coefficient < Decimal.coefficientBound
  /-- There are at most 28 places. -/
  places_le : places ≤ Decimal.maxPlaces
  deriving DecidableEq, Repr

namespace Decimal

open Number (powerOfTen powerOfTen_succ)

/-- The decimal number with the given parts, if they are in range. Zero takes no sign. -/
def ofParts? (negative : Bool) (coefficient places : Nat) : Option Decimal :=
  if h : coefficient < coefficientBound ∧ places ≤ maxPlaces then
    some ⟨negative && coefficient != 0, coefficient, places, h.1, h.2⟩
  else none

/-- The decimal number zero. -/
def zero : Decimal := ⟨false, 0, 0, by decide, by decide⟩

/-- The decimal number one. -/
def one : Decimal := ⟨false, 1, 0, by decide, by decide⟩

/-- The decimal number one half. -/
def half : Decimal := ⟨false, 5, 1, by decide, by decide⟩

/-- The whole number `n`, or the greatest decimal number if `n` is out of range. -/
def ofNat (n : Nat) : Decimal :=
  if h : n < coefficientBound then ⟨false, n, 0, h, by decide⟩
  else ⟨false, coefficientBound - 1, 0, by decide, by decide⟩

/-- The coefficient with the sign applied. -/
def signedCoefficient (d : Decimal) : Int :=
  if d.negative then -(d.coefficient : Int) else d.coefficient

/-! ### Size -/

/-- Whether the two numbers have the same size, whatever their places. -/
def sameSize (a b : Decimal) : Bool :=
  a.signedCoefficient * powerOfTen b.places == b.signedCoefficient * powerOfTen a.places

@[simp] theorem sameSize_refl (a : Decimal) : a.sameSize a = true := by simp [sameSize]

theorem sameSize_comm (a b : Decimal) : a.sameSize b = b.sameSize a := by
  simp only [sameSize]
  exact Bool.beq_comm

/-! ### Normal form -/

/-- The coefficient and places without the zeros at the end of the places. -/
def dropZeros (coefficient : Nat) : Nat → Nat × Nat
  | 0 => (coefficient, 0)
  | places + 1 =>
    if coefficient % 10 = 0 then dropZeros (coefficient / 10) places
    else (coefficient, places + 1)

/-- Dropping zeros keeps the size. -/
theorem dropZeros_size (c p : Nat) :
    (dropZeros c p).1 * powerOfTen p = c * powerOfTen (dropZeros c p).2 := by
  induction p generalizing c with
  | zero => simp [dropZeros]
  | succ p ih =>
    rw [dropZeros]
    split
    · have hc : c / 10 * 10 = c := by omega
      rw [powerOfTen_succ, ← Nat.mul_assoc, ih, Nat.mul_right_comm, hc]
    · rfl

theorem dropZeros_le (c p : Nat) : (dropZeros c p).1 ≤ c := by
  induction p generalizing c with
  | zero => simp [dropZeros]
  | succ p ih =>
    rw [dropZeros]
    split
    · exact Nat.le_trans (ih _) (Nat.div_le_self _ _)
    · exact Nat.le_refl _

theorem dropZeros_places_le (c p : Nat) : (dropZeros c p).2 ≤ p := by
  induction p generalizing c with
  | zero => simp [dropZeros]
  | succ p ih =>
    rw [dropZeros]
    split
    · exact Nat.le_succ_of_le (ih _)
    · exact Nat.le_refl _

theorem dropZeros_zero (p : Nat) : (dropZeros 0 p).1 = 0 :=
  Nat.le_zero.1 (dropZeros_le 0 p)

/-- The same size with the fewest places. Zero loses its sign. -/
def normalize (d : Decimal) : Decimal where
  negative := d.negative && d.coefficient != 0
  coefficient := (dropZeros d.coefficient d.places).1
  places := (dropZeros d.coefficient d.places).2
  coefficient_lt := Nat.lt_of_le_of_lt (dropZeros_le _ _) d.coefficient_lt
  places_le := Nat.le_trans (dropZeros_places_le _ _) d.places_le

/-- Normalizing keeps the size. -/
theorem sameSize_normalize (d : Decimal) : d.normalize.sameSize d = true := by
  have h : (((dropZeros d.coefficient d.places).1 * powerOfTen d.places : Nat) : Int) =
      (d.coefficient * powerOfTen (dropZeros d.coefficient d.places).2 : Nat) :=
    congrArg _ (dropZeros_size d.coefficient d.places)
  rw [Int.natCast_mul, Int.natCast_mul] at h
  rw [sameSize, beq_iff_eq]
  rcases hn : d.negative with _ | _
  · simp [signedCoefficient, normalize, hn, h]
  · by_cases hc : d.coefficient = 0
    · simp [signedCoefficient, normalize, hn, hc, dropZeros_zero]
    · have h' := congrArg Neg.neg h
      rw [← Int.neg_mul, ← Int.neg_mul] at h'
      simpa [signedCoefficient, normalize, hn, hc] using h'

/-! ### Operations -/

/-- The whole part, if the number is not negative. -/
def wholePart? (d : Decimal) : Option Nat :=
  let whole := d.coefficient / powerOfTen d.places
  if d.negative && whole != 0 then none else some whole

/-- The reciprocal of a whole number, rounded to four places; a half goes to the even neighbour. -/
def reciprocal (n : Nat) : Decimal :=
  match ofParts? false (Number.divHalfEven 10000 n) 4 with
  | some d => d.normalize
  | none => zero

end Decimal

end SearchQuery
