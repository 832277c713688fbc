import SearchQuery.Number.Digits

/-!
# Binary floating-point numbers

Weights and the literals of settings are floating-point numbers.

## Exact arithmetic

A finite number is a significand times a power of two, and a ratio is rounded to the nearest of them
in exact arithmetic of whole numbers, a half going to the even significand. No arithmetic on the
numbers themselves is needed: they are read, rounded to another format, compared and written.

## The order

Weights are compared by a total order in which `-0` precedes `0` and infinity precedes what is not a
number; its key is the size in units of the least positive number. Shares are compared by the usual
order, in which the zeros are equal and what is not a number has no place.

## Written forms

A number is written with the fewest digits that read back as the same number and without an
exponent. The digits are looked for on grids of ever smaller powers of ten, the first of which with
a point near enough to the number has the fewest. Seventeen digits suffice for 64 bits.

## Main definitions

* `FloatFormat` — the precision and the exponents of a format; `binary32` and `binary64`
* `Floating` — a number of some format
* `FloatFormat.ofRatio` — the number nearest to a ratio, a half going to the even significand
* `FloatFormat.ofDecimal` — the number nearest to a decimal literal
* `FloatFormat.convert` — a number of another format rounded to this one
* `Floating.rank` — the key of the total order
* `FloatFormat.shortest` — the fewest digits that read back
* `FloatFormat.text` — the written form without an exponent
-/

namespace SearchQuery.Number

/-- A binary floating-point format. -/
structure FloatFormat where
  /-- The number of bits of a significand. -/
  precision : Nat
  /-- The exponent of the least positive number. -/
  minExponent : Int
  /-- The exponent of the greatest finite number. -/
  maxExponent : Int

/-- The format with 32 bits. -/
def binary32 : FloatFormat := ⟨24, -149, 104⟩

/-- The format with 64 bits. -/
def binary64 : FloatFormat := ⟨53, -1074, 971⟩

/-- A floating-point number. -/
inductive Floating where
  /-- Not a number. -/
  | nan
  /-- An infinity. -/
  | infinite (negative : Bool)
  /-- The number `significand * 2 ^ exponent` with a sign. -/
  | finite (negative : Bool) (significand : Nat) (exponent : Int)
  deriving DecidableEq, Repr

/-- The power `base ^ e`, or one for a negative `e`. -/
def powUp (base : Nat) (e : Int) : Nat := Nat.pow base e.toNat

/-- The power `base ^ (-e)`, or one for a positive `e`. -/
def powDown (base : Nat) (e : Int) : Nat := Nat.pow base (-e).toNat

/-! ### Rounding -/

namespace FloatFormat

variable (fmt : FloatFormat)

/-- All significands are below this. -/
def significandBound : Nat := Nat.pow 2 fmt.precision

/-- The number of the format nearest to `num / den`. -/
def ofRatio (negative : Bool) (num den : Nat) : Floating :=
  if num = 0 then .finite negative 0 fmt.minExponent
  else
    let d : Int := (num.log2 : Int) - den.log2
    let top := if den * powUp 2 d ≤ num * powDown 2 d then d else d - 1
    let e := max fmt.minExponent (top - (fmt.precision - 1 : Nat))
    let q := divHalfEven (num * powDown 2 e) (den * powUp 2 e)
    let (q, e) := if q = fmt.significandBound then (q / 2, e + 1) else (q, e)
    if fmt.maxExponent < e then .infinite negative else .finite negative q e

/-- The number of the format nearest to `n * 10 ^ e`. Powers of ten that are far out of range are
decided by the position of the first digit. -/
def ofDecimal (negative : Bool) (n : Nat) (e : Int) : Floating :=
  let top := e + (digits n).length
  if n = 0 || top < fmt.minExponent - 1 then .finite negative 0 fmt.minExponent
  else if fmt.maxExponent + fmt.precision + 1 < top then .infinite negative
  else fmt.ofRatio negative (n * powUp 10 e) (powDown 10 e)

/-- A number rounded to the format. -/
def convert : Floating → Floating
  | .finite negative m e => fmt.ofRatio negative (m * powUp 2 e) (powDown 2 e)
  | x => x

end FloatFormat

/-! ### Order -/

namespace Floating

/-- The size in units of the least positive number of the format. -/
def units (fmt : FloatFormat) (m : Nat) (e : Int) : Nat := m * powUp 2 (e - fmt.minExponent)

/-- The key of the total order on the numbers of a format. -/
def rank (fmt : FloatFormat) : Floating → Int
  | finite false m e => units fmt m e
  | finite true m e => -(units fmt m e : Int) - 1
  | infinite false => units fmt fmt.significandBound fmt.maxExponent
  | infinite true => -(units fmt fmt.significandBound fmt.maxExponent : Int) - 1
  | nan => units fmt fmt.significandBound fmt.maxExponent + 1

/-- Whether the first number is at most the second. What is not a number is not comparable, and
the two zeros are equal. -/
def le (fmt : FloatFormat) : Floating → Floating → Bool
  | nan, _ => false
  | _, nan => false
  | finite _ 0 _, finite _ 0 _ => true
  | a, b => a.rank fmt ≤ b.rank fmt

end Floating

/-! ### Shortest digits -/

/-- How often `num` has to be multiplied by ten to reach `den`, tried `fuel` times. -/
def tenfolds (num den : Nat) : Nat → Nat
  | 0 => 0
  | fuel + 1 => if den ≤ num then 0 else tenfolds (num * 10) den fuel + 1

/-- The power of ten of the first digit of `num / den`. -/
def leadingPower (num den : Nat) : Int :=
  if den ≤ num then (digits (num / den)).length - 1 else -(tenfolds num den (den.log2 + 1) : Int)

/-- The number of the grid of step `10 ^ k` that is nearest to `v / den` among those between
`lo / den` and `hi / den`, of two equally near the larger; the ends count if `closed`. -/
def onGrid (lo v hi den : Nat) (closed : Bool) (k : Int) : Option Nat :=
  let step := den * powUp 10 k
  let unit := powDown 10 k
  let inside (c : Nat) : Bool :=
    if closed then lo * unit ≤ c * step && c * step ≤ hi * unit
    else lo * unit < c * step && c * step < hi * unit
  let below := v * unit / step
  match inside below, inside (below + 1) with
  | true, true =>
    if v * unit - below * step < (below + 1) * step - v * unit then some below
    else some (below + 1)
  | true, false => some below
  | false, true => some (below + 1)
  | false, false => none

namespace FloatFormat

variable (fmt : FloatFormat)

/-- The fewest digits whose nearest number is `m * 2 ^ e`, as a whole number and a power of ten.
Seventeen digits are always enough. -/
def shortest (m : Nat) (e : Int) : Nat × Int :=
  if m = 0 then (0, 0)
  else
    let unit := powUp 2 (e - 2)
    let den := powDown 2 (e - 2)
    let gap := if 2 * m = fmt.significandBound && fmt.minExponent < e then 1 else 2
    let lo := (4 * m - gap) * unit
    let v := 4 * m * unit
    let hi := (4 * m + 2) * unit
    let top := leadingPower v den
    let found := (List.range 17).findSome? fun (n : Nat) =>
      (onGrid lo v hi den (m % 2 == 0) (top - n)).map fun c => (c, top - (n : Int))
    found.getD (0, 0)

/-- The written form of a number: the fewest digits that read back, without an exponent. -/
def text : Floating → String
  | .nan => "NaN"
  | .infinite negative => if negative then "-inf" else "inf"
  | .finite negative m e =>
    let (n, k) := fmt.shortest m e
    let body :=
      if 0 ≤ k then digits (n * powerOfTen k.toNat)
      else if n % 10 = 0 then positional (n / 10) ((-k).toNat - 1)
      else positional n (-k).toNat
    String.ofList ((if negative then ['-'] else []) ++ body)

end FloatFormat

end SearchQuery.Number
