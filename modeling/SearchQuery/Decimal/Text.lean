import SearchQuery.Decimal.Basic

/-!
# Decimal numbers as text

A decimal number is written with all of its places. It is read from digits with at most one point,
a sign in front and underscores after the first digit; a power of ten may follow.

## Digits that do not fit

Digits after the point that do not fit are given up: from the first digit that would exceed 28
places or the coefficient's range on, only that digit counts, and the number is rounded by it (five
and more go up). A number that does not fit before its point is no number.

Underscores before that digit are skipped, with one exception that `Decimal.afterLastPlace` states:
right after the last place of a number whose coefficient is short, an underscore stands for a zero.

## Powers of ten

A power of ten moves the point. Moving it left past the greatest number of places rounds, and the
coefficient only falls; moving it right fills up with zeros, and then the coefficient may leave its
range.

## Main definitions

* `Decimal.text` — the written form
* `Decimal.readDigits` — the reader of the digits after a sign
* `Decimal.shiftDown`, `Decimal.shiftUp` — a number with a power of ten
* `Decimal.parse?` — the reader of a whole text
-/

namespace SearchQuery.Decimal

open Number

/-- The written form of a decimal number, with all of its places. -/
def chars (d : Decimal) : List Char :=
  (if d.negative then ['-'] else []) ++ positional d.coefficient d.places

/-- The written form of a decimal number, with all of its places. -/
def text (d : Decimal) : String := String.ofList d.chars

/-! ### Digits -/

/-- The value of a decimal digit. -/
def digitValue? (c : Char) : Option Nat := if c.isDigit then some (c.toNat - '0'.toNat) else none

/-- The first of the digits that are given up, or zero if there is none. Nothing but digits and
underscores may follow. -/
def firstGivenUp? (cs : List Char) : Option Nat :=
  if cs.all fun c => c.isDigit || c == '_' then some ((cs.findSome? digitValue?).getD 0) else none

/-- The number read so far, rounded by the digits `cs` that are given up. A coefficient that leaves
its range by rounding gives up one more place. -/
def roundedBy (negative : Bool) (n places : Nat) (cs : List Char) : Option Decimal :=
  (firstGivenUp? cs).bind fun digit =>
    if digit < 5 then ofParts? negative n places
    else if n + 1 < coefficientBound then ofParts? negative (n + 1) places
    else if places = 0 then none
    else ofParts? negative ((n + 5) / 10) (places - 1)

/-- Coefficients below this are short: before the last digit is read, it is certain that a word of
64 bits will hold them. -/
def shortBound : Nat := 10 * (UInt64.size / 10 - 255)

/-- The digits that are given up after the last place of a number with the coefficient `n`. -/
def afterLastPlace (n : Nat) : List Char → List Char
  | '_' :: cs => (if n < shortBound then '0' else '_') :: cs
  | cs => cs

/-- Reads digits, one point and underscores to the end of the text. So far the digits write `n`,
of which `places` stand after the point; `point` and `digit` tell whether one was seen. -/
def readDigits (negative : Bool) (n places : Nat) (point digit : Bool) :
    List Char → Option Decimal
  | [] => if digit then ofParts? negative n places else none
  | c :: cs =>
    if places = maxPlaces then roundedBy negative n places (afterLastPlace n (c :: cs))
    else match digitValue? c with
      | some v =>
        if 10 * n + v < coefficientBound then
          readDigits negative (10 * n + v) (if point then places + 1 else 0) point true cs
        else if point then roundedBy negative n places (c :: cs)
        else none
      | none =>
        if c = '.' && !point then readDigits negative n places true digit cs
        else if c = '_' && digit then readDigits negative n places point digit cs
        else none

/-- Reads a number without a power of ten. -/
def readPlain : List Char → Option Decimal
  | '-' :: cs => readDigits true 0 0 false false cs
  | '+' :: cs => readDigits false 0 0 false false cs
  | cs => readDigits false 0 0 false false cs

/-! ### Powers of ten -/

/-- The number `n / 10 ^ k`, rounded to the nearest whole number, a half going up. -/
def dropDigits (n k : Nat) : Nat := (n + powerOfTen k / 2) / powerOfTen k

/-- A coefficient that loses digits stays in its range. -/
theorem dropDigits_le {n k : Nat} : dropDigits n k ≤ n := by
  have hpos := powerOfTen_pos k
  have hn : n ≤ powerOfTen k * n := Nat.le_mul_of_pos_left n hpos
  refine Nat.le_of_lt_succ ((Nat.div_lt_iff_lt_mul hpos).2 ?_)
  rw [Nat.succ_mul, Nat.mul_comm n]
  omega

/-- The number divided by `10 ^ k`, if `k` is at most the greatest number of places. Places that
are too many are rounded off, and a number that becomes zero keeps its sign. -/
def shiftDown (d : Decimal) (k : Nat) : Option Decimal :=
  if maxPlaces < k then none
  else if h : d.places + k ≤ maxPlaces then some { d with places := d.places + k, places_le := h }
  else some
    { d with
      coefficient := dropDigits d.coefficient (d.places + k - maxPlaces)
      places := maxPlaces
      coefficient_lt := Nat.lt_of_le_of_lt dropDigits_le d.coefficient_lt
      places_le := Nat.le_refl _ }

/-- The number multiplied by `10 ^ k`, if it fits and either its places or the greatest number of
places are at least `k`. -/
def shiftUp (d : Decimal) (k : Nat) : Option Decimal :=
  if k ≤ d.places then
    some { d with
      places := d.places - k
      places_le := Nat.le_trans (Nat.sub_le _ _) d.places_le }
  else if maxPlaces < k then none
  else ofParts? d.negative (d.coefficient * powerOfTen (k - d.places)) 0

/-- Whether `c` introduces a power of ten. -/
def isExponentMark (c : Char) : Bool := c == 'e' || c == 'E'

/-- The decimal number that is written by all of `cs`. -/
def ofChars? (cs : List Char) : Option Decimal :=
  match cs.dropWhile (!isExponentMark ·) with
  | [] => readPlain cs
  | _ :: exponent =>
    (readPlain (cs.takeWhile (!isExponentMark ·))).bind fun d =>
      match exponent with
      | '-' :: k => (unsigned? UInt32.size k).bind d.shiftDown
      | k => (unsigned? UInt32.size k).bind d.shiftUp

/-- The decimal number that is written by all of the text. -/
def parse? (s : String) : Option Decimal := ofChars? s.toList

end SearchQuery.Decimal
