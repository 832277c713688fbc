/-!
# Numbers written in decimal digits

Digits are those of the standard library, most significant first. A number that is read has a bound,
and all of the text has to belong to it; a plus sign may precede the digits and a minus sign may
not. Leading zeros are allowed, so a number has many texts and one written form.

Powers of ten are a definition of their own that unfolds one factor at a time. Places are counted
up to 28, and a numeral of that size should not be computed while a statement is simplified.

## Main definitions

* `digits` — the decimal digits of a number
* `positional` — the digits with a point before the last `scale` of them
* `unsigned?` — an unsigned number below a bound, read from all of a text
* `powerOfTen` — the powers of ten
* `divHalfEven` — the quotient rounded to the nearest number, a half to the even neighbour

## Main results

* `ofDigits_digits` — a number is read back from its digits
-/

namespace SearchQuery.Number

/-- The decimal digits of `n`, without leading zeros. -/
def digits (n : Nat) : List Char := Nat.toDigits 10 n

/-- The number that a list of decimal digits writes. -/
def ofDigits (cs : List Char) : Nat := Nat.ofDigitChars 10 cs 0

/-- A number is read back from its digits. -/
@[simp] theorem ofDigits_digits (n : Nat) : ofDigits (digits n) = n :=
  Nat.ofDigitChars_toDigits (by decide) (by decide)

theorem isDigit_of_mem_digits {n : Nat} {c : Char} (h : c ∈ digits n) : c.isDigit = true :=
  Nat.isDigit_of_mem_toDigits (by decide) (by decide) h

theorem digits_ne_nil (n : Nat) : digits n ≠ [] := Nat.toDigits_ne_nil

/-- The decimal numeral of `n`. -/
def numeral (n : Nat) : String := String.ofList (digits n)

/-- The decimal digits of a whole number, with a minus sign if it is negative. -/
def signedDigits (n : Int) : List Char := if n < 0 then '-' :: digits n.natAbs else digits n.natAbs

/-- The number `n / 10 ^ scale`, with `scale` digits after the point and at least one before it.
Without a scale there is no point. -/
def positional (n scale : Nat) : List Char :=
  match scale with
  | 0 => digits n
  | _ =>
    let ds := List.replicate (scale + 1 - (digits n).length) '0' ++ digits n
    ds.take (ds.length - scale) ++ '.' :: ds.drop (ds.length - scale)

/-- The number that is written as one and `k` zeros. -/
def powerOfTen (k : Nat) : Nat := Nat.pow 10 k

@[simp] theorem powerOfTen_zero : powerOfTen 0 = 1 := rfl

theorem powerOfTen_succ (k : Nat) : powerOfTen (k + 1) = powerOfTen k * 10 := rfl

theorem powerOfTen_pos (k : Nat) : 0 < powerOfTen k := Nat.pow_pos (by decide)

/-- The unsigned number below `bound` that is written by all of `cs`; one plus sign may precede
its digits. -/
def unsigned? (bound : Nat) (cs : List Char) : Option Nat :=
  let ds := match cs with
    | '+' :: rest => rest
    | _ => cs
  if !ds.isEmpty && ds.all Char.isDigit && ofDigits ds < bound then some (ofDigits ds) else none

/-- The quotient rounded to the nearest number. A half goes to the even neighbour. -/
def divHalfEven (num den : Nat) : Nat :=
  let q := num / den
  let r := num % den
  if 2 * r < den then q
  else if den < 2 * r then q + 1
  else if q % 2 = 0 then q else q + 1

end SearchQuery.Number
