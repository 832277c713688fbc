import Mathlib.Data.List.TakeWhile
import SearchQuery.Decimal.Text

/-!
# Decimal numbers are read back

What is written for a decimal number without a sign is read as that number, with the same places.

## Why the bounds hold at every digit

The reader checks the range after each digit and gives digits up once it is left. It never leaves
the range here: a list of digits writes at least what any front part of it writes, so the bound of
the whole number is a bound for every number on the way.

## Main results

* `readDigits_append` — the reader takes the digits at the front of a text
* `ofChars?_chars` — a number without a sign is read back from its text
* `negative_of_ofChars?` — digits and points write no sign
* `normalize_normalize` — normalizing is idempotent
-/

namespace SearchQuery

namespace Number

theorem le_ofDigitChars (cs : List Char) (n : Nat) : n ≤ Nat.ofDigitChars 10 cs n := by
  rw [Nat.ofDigitChars_eq_ofDigitChars_zero]
  exact Nat.le_add_right_of_le (Nat.le_mul_of_pos_left n (Nat.pow_pos (by decide)))

/-- The digits with a point, cut at the point. -/
theorem exists_positional_eq (n : Nat) {scale : Nat} (h : scale ≠ 0) :
    ∃ whole fraction, positional n scale = whole ++ '.' :: fraction ∧ whole ≠ [] ∧
      fraction.length = scale ∧ (∀ c ∈ whole ++ fraction, c.isDigit = true) ∧
      Nat.ofDigitChars 10 (whole ++ fraction) 0 = n := by
  obtain ⟨scale, rfl⟩ := Nat.exists_eq_succ_of_ne_zero h
  let ds := List.replicate (scale + 1 + 1 - (digits n).length) '0' ++ digits n
  have hlength : scale + 1 < ds.length := by
    simp only [ds, List.length_append, List.length_replicate]
    omega
  refine ⟨ds.take (ds.length - (scale + 1)), ds.drop (ds.length - (scale + 1)), rfl, ?_, ?_, ?_, ?_⟩
  · rw [← List.length_pos_iff, List.length_take]
    omega
  · rw [List.length_drop]
    omega
  · rw [List.take_append_drop]
    intro c hc
    rcases List.mem_append.1 hc with hzero | hdigit
    · rw [(List.mem_replicate.1 hzero).2]
      rfl
    · exact isDigit_of_mem_digits hdigit
  · rw [List.take_append_drop, Nat.ofDigitChars_append, Nat.ofDigitChars_replicate_zero,
      Nat.mul_zero]
    exact ofDigits_digits n

end Number

namespace Decimal

open Number

/-! ### Digits -/

theorem digitValue?_of_isDigit {c : Char} (h : c.isDigit = true) :
    digitValue? c = some (c.toNat - '0'.toNat) := if_pos h

/-- The reader takes the digits at the front of a text. -/
theorem readDigits_append {negative point digit : Bool} {n places : Nat} {cs : List Char}
    (rest : List Char) (hdigits : ∀ c ∈ cs, c.isDigit = true)
    (hlt : Nat.ofDigitChars 10 cs n < coefficientBound) (hne : cs ≠ [] ∨ digit = true)
    (hplaces : if point then places + cs.length ≤ maxPlaces else places = 0) :
    readDigits negative n places point digit (cs ++ rest) =
      readDigits negative (Nat.ofDigitChars 10 cs n) (if point then places + cs.length else 0) point
        true rest := by
  induction cs generalizing n places digit with
  | nil =>
    have hdigit : digit = true := by simpa using hne
    cases point with
    | false => rw [show places = 0 from hplaces, hdigit]; rfl
    | true => rw [hdigit]; rfl
  | cons c cs ih =>
    rw [List.forall_mem_cons] at hdigits
    rw [Nat.ofDigitChars_cons] at hlt ⊢
    have hstep : 10 * n + (c.toNat - '0'.toNat) < coefficientBound :=
      Nat.lt_of_le_of_lt (le_ofDigitChars cs _) hlt
    have hroom : places ≠ maxPlaces := by
      cases point with
      | false => rw [show places = 0 from hplaces]; decide
      | true =>
        have hall : places + (c :: cs).length ≤ maxPlaces := hplaces
        rw [List.length_cons] at hall
        omega
    rw [List.cons_append, readDigits, if_neg hroom, digitValue?_of_isDigit hdigits.1]
    simp only [if_pos hstep]
    rw [ih hdigits.2 hlt (.inr rfl)]
    · cases point with
      | false => rfl
      | true => simp only [if_true, List.length_cons, Nat.add_assoc, Nat.add_comm 1]
    · cases point with
      | false => rfl
      | true =>
        have hall : places + (c :: cs).length ≤ maxPlaces := hplaces
        rw [List.length_cons] at hall
        simp only [if_true]
        omega

theorem ofParts?_self (d : Decimal) (h : d.negative = false) :
    ofParts? false d.coefficient d.places = some d := by
  rw [ofParts?, dif_pos ⟨d.coefficient_lt, d.places_le⟩]
  cases d
  cases h
  rfl

theorem readDigits_positional (d : Decimal) (h : d.negative = false) :
    readDigits false 0 0 false false (positional d.coefficient d.places) = some d := by
  by_cases hplaces : d.places = 0
  · have hvalue : Nat.ofDigitChars 10 (digits d.coefficient) 0 = d.coefficient :=
      ofDigits_digits d.coefficient
    have hlt : Nat.ofDigitChars 10 (digits d.coefficient) 0 < coefficientBound := by
      rw [hvalue]
      exact d.coefficient_lt
    have hread : readDigits false 0 0 false false (digits d.coefficient ++ []) = _ :=
      readDigits_append [] (fun _ => isDigit_of_mem_digits) hlt (.inl (digits_ne_nil _)) rfl
    rw [List.append_nil] at hread
    rw [hplaces, positional, hread, hvalue, readDigits, if_pos rfl, if_neg (by decide), ← hplaces]
    exact ofParts?_self d h
  · obtain ⟨whole, fraction, hcut, hwhole, hlength, hdigits, hvalue⟩ :=
      exists_positional_eq d.coefficient hplaces
    rw [List.forall_mem_append] at hdigits
    rw [Nat.ofDigitChars_append] at hvalue
    have hfraction : Nat.ofDigitChars 10 fraction (Nat.ofDigitChars 10 whole 0) <
        coefficientBound := by
      rw [hvalue]
      exact d.coefficient_lt
    have hroom : 0 + fraction.length ≤ maxPlaces := by
      rw [hlength, Nat.zero_add]
      exact d.places_le
    have hwholeRead : readDigits false 0 0 false false (whole ++ '.' :: fraction) = _ :=
      readDigits_append ('.' :: fraction) hdigits.1
        (Nat.lt_of_le_of_lt (le_ofDigitChars fraction _) hfraction) (.inl hwhole) rfl
    have hfractionRead :
        readDigits false (Nat.ofDigitChars 10 whole 0) 0 true true (fraction ++ []) = _ :=
      readDigits_append [] hdigits.2 hfraction (.inr rfl) hroom
    rw [List.append_nil] at hfractionRead
    rw [hcut, hwholeRead, if_neg (by decide), readDigits, if_neg (by decide)]
    simp only [show digitValue? '.' = none from rfl]
    rw [if_pos (by decide), hfractionRead, hvalue, readDigits, if_pos rfl, if_pos rfl,
      Nat.zero_add, hlength]
    exact ofParts?_self d h

/-! ### Texts of digits and points -/

/-- Whether the character may stand in a number without a sign, as it is written. -/
def isNumeralChar (c : Char) : Bool := c.isDigit || c == '.'

theorem isNumeralChar_of_mem_chars {d : Decimal} (h : d.negative = false) {c : Char}
    (hc : c ∈ d.chars) : isNumeralChar c = true := by
  rw [chars, h, if_neg (by decide), List.nil_append] at hc
  by_cases hplaces : d.places = 0
  · rw [hplaces, positional] at hc
    simp [isNumeralChar, isDigit_of_mem_digits hc]
  · obtain ⟨whole, fraction, hcut, -, -, hdigits, -⟩ := exists_positional_eq d.coefficient hplaces
    rw [hcut] at hc
    rcases List.mem_append.1 hc with hwhole | hrest
    · simp [isNumeralChar, hdigits c (List.mem_append_left _ hwhole)]
    · rcases List.mem_cons.1 hrest with rfl | hfraction
      · rfl
      · simp [isNumeralChar, hdigits c (List.mem_append_right _ hfraction)]

/-- Digits and points are read without a sign and without a power of ten. -/
theorem ofChars?_of_forall_isNumeralChar {cs : List Char} (h : ∀ c ∈ cs, isNumeralChar c = true) :
    ofChars? cs = readDigits false 0 0 false false cs := by
  have hmark : cs.dropWhile (!isExponentMark ·) = [] := by
    rw [List.dropWhile_eq_nil_iff]
    intro c hc
    have hnumeral := h c hc
    rw [Bool.not_eq_true', Bool.eq_false_iff]
    intro hexp
    simp only [isExponentMark, Bool.or_eq_true, beq_iff_eq] at hexp
    rcases hexp with rfl | rfl <;> exact absurd hnumeral (by decide)
  rw [ofChars?, hmark]
  dsimp only
  rw [readPlain]
  · rintro ds rfl
    exact absurd (h '-' (List.mem_cons_self ..)) (by decide)
  · rintro ds rfl
    exact absurd (h '+' (List.mem_cons_self ..)) (by decide)

/-- **A number without a sign is read back from its text.** -/
theorem ofChars?_chars {d : Decimal} (h : d.negative = false) : ofChars? d.chars = some d := by
  rw [ofChars?_of_forall_isNumeralChar fun _ => isNumeralChar_of_mem_chars h, chars, h,
    if_neg (by decide), List.nil_append]
  exact readDigits_positional d h

theorem negative_of_ofParts? {n places : Nat} {d : Decimal} (h : ofParts? false n places = some d) :
    d.negative = false := by
  rw [ofParts?] at h
  split at h
  · cases h
    rfl
  · cases h

theorem negative_of_roundedBy {n places : Nat} {cs : List Char} {d : Decimal}
    (h : roundedBy false n places cs = some d) : d.negative = false := by
  rw [roundedBy, Option.bind_eq_some_iff] at h
  obtain ⟨digit, -, h⟩ := h
  split at h
  · exact negative_of_ofParts? h
  split at h
  · exact negative_of_ofParts? h
  split at h
  · cases h
  · exact negative_of_ofParts? h

theorem negative_of_readDigits {n places : Nat} {point digit : Bool} {cs : List Char} {d : Decimal}
    (h : readDigits false n places point digit cs = some d) : d.negative = false := by
  induction cs generalizing n places point digit with
  | nil =>
    rw [readDigits, Option.ite_none_right_eq_some] at h
    exact negative_of_ofParts? h.2
  | cons c cs ih =>
    rw [readDigits] at h
    split at h
    · exact negative_of_roundedBy h
    split at h
    · split at h
      · exact ih h
      split at h
      · exact negative_of_roundedBy h
      · cases h
    · split at h
      · exact ih h
      split at h
      · exact ih h
      · cases h

/-- Digits and points write no sign. -/
theorem negative_of_ofChars? {cs : List Char} {d : Decimal} (hcs : ∀ c ∈ cs, isNumeralChar c = true)
    (h : ofChars? cs = some d) : d.negative = false := by
  rw [ofChars?_of_forall_isNumeralChar hcs] at h
  exact negative_of_readDigits h

/-! ### Normal form -/

theorem dropZeros_dropZeros (c p : Nat) :
    dropZeros (dropZeros c p).1 (dropZeros c p).2 = dropZeros c p := by
  induction p generalizing c with
  | zero => rfl
  | succ p ih =>
    by_cases hzero : c % 10 = 0
    · rw [dropZeros, if_pos hzero]
      exact ih _
    · have hkept : dropZeros c (p + 1) = (c, p + 1) := by rw [dropZeros, if_neg hzero]
      rw [hkept, hkept]

theorem eq_zero_of_dropZeros {c p : Nat} (h : (dropZeros c p).1 = 0) : c = 0 := by
  have hsize := dropZeros_size c p
  rw [h, Nat.zero_mul] at hsize
  exact (Nat.mul_eq_zero.1 hsize.symm).resolve_right (powerOfTen_pos _).ne'

theorem normalize_normalize (d : Decimal) : d.normalize.normalize = d.normalize := by
  have hzeros := dropZeros_dropZeros d.coefficient d.places
  have hsign : (d.negative && d.coefficient != 0 && (dropZeros d.coefficient d.places).1 != 0) =
      (d.negative && d.coefficient != 0) := by
    by_cases hc : d.coefficient = 0
    · simp [hc]
    · have hne : (dropZeros d.coefficient d.places).1 ≠ 0 := mt eq_zero_of_dropZeros hc
      simp [hne]
  rw [normalize, Decimal.mk.injEq]
  exact ⟨hsign, congrArg Prod.fst hzeros, congrArg Prod.snd hzeros⟩

@[simp] theorem negative_normalize {d : Decimal} (h : d.negative = false) :
    d.normalize.negative = false := by simp [normalize, h]

end Decimal

end SearchQuery
