import SearchQuery.Data

/-!
# Numbers, truth values and dates of settings files

A settings file is a TOML document. A value that is neither a string nor a container is one word,
and its spelling tells what it is. Dates are tried before numbers, since they begin like them, and
whole numbers before floating-point ones, which need a point or an exponent.

A whole number may have more bits than any setting takes. Whether it is in range is for the setting
to say, and only what is beyond 128 bits is no number at all. A floating-point number that is too
large is no number, and one that is too small is zero.

A date is held as a table with its text under a key that nothing else uses. The text is brought into
one form: a `T` before the time, at most nine digits of a second, and an offset of zero as it is
usually written.

## Main definitions

* `Toml.integer?`, `Toml.float?` — the number that a word writes
* `Toml.date?` — the text of the date, the time or both that a word writes
* `Toml.scalar?` — the value that a word writes
-/

namespace SearchQuery.Toml

open Number

/-- The value of a hexadecimal digit. -/
def hexValue? (c : Char) : Option Nat :=
  if c.isDigit then some (c.toNat - '0'.toNat)
  else if 'a' ≤ c && c ≤ 'f' then some (c.toNat - 'a'.toNat + 10)
  else if 'A' ≤ c && c ≤ 'F' then some (c.toNat - 'A'.toNat + 10)
  else none

/-- The number that digits of a base write; underscores may stand between digits. `last` tells
whether a digit was just read. -/
def basedNumber? (base : Nat) (n : Nat) (last : Bool) : List Char → Option Nat
  | [] => if last then some n else none
  | '_' :: cs => if last && !cs.isEmpty then basedNumber? base n false cs else none
  | c :: cs =>
    (hexValue? c).bind fun v => if v < base then basedNumber? base (base * n + v) true cs else none

/-- The digits with underscores between them, without the underscores. -/
def plainDigits? (cs : List Char) : Option (List Char) :=
  (basedNumber? 10 0 false cs).map fun _ => cs.filter (· != '_')

/-- The sign of a word, negative or not, and what it applies to. -/
def takeSign : List Char → Bool × List Char
  | '-' :: cs => (true, cs)
  | '+' :: cs => (false, cs)
  | cs => (false, cs)

/-- The whole number that decimal digits write, without leading zeros. -/
def decimalNumber? (cs : List Char) : Option Nat :=
  if 1 < cs.length && cs.head? == some '0' then none else basedNumber? 10 0 false cs

/-- The whole number that a word writes, however large. -/
def wholeNumber? (cs : List Char) : Option Int :=
  match cs with
  | '0' :: 'x' :: ds => (basedNumber? 16 0 false ds).map Int.ofNat
  | '0' :: 'o' :: ds => (basedNumber? 8 0 false ds).map Int.ofNat
  | '0' :: 'b' :: ds => (basedNumber? 2 0 false ds).map Int.ofNat
  | _ =>
    let (negative, ds) := takeSign cs
    (decimalNumber? ds).map fun n => if negative then -(n : Int) else n

/-- The whole number that a word writes. It has at most 128 bits. -/
def integer? (cs : List Char) : Option Int :=
  (wholeNumber? cs).filter fun n => -(Nat.pow 2 127 : Int) ≤ n && n < (Nat.pow 2 128 : Int)

/-- Whether `c` introduces the exponent of a floating-point number. -/
def isExponentMark (c : Char) : Bool := c == 'e' || c == 'E'

/-- The exponent that the rest of a word writes; none is zero. -/
def exponent? : List Char → Option Int
  | [] => some 0
  | _ :: cs =>
    let (negative, ds) := takeSign cs
    (basedNumber? 10 0 false ds).map fun n => if negative then -(n : Int) else n

/-- The floating-point number that a word writes. It has a point or an exponent, and it is not too
large. -/
def decimalFloat? (negative : Bool) (cs : List Char) : Option Floating := do
  let mantissa := cs.takeWhile (!isExponentMark ·)
  let whole := mantissa.takeWhile (· != '.')
  let _ ← decimalNumber? whole
  let wholeDigits ← plainDigits? whole
  let fraction ← match mantissa.drop whole.length with
    | [] => if mantissa.length < cs.length then some [] else none
    | _ :: ds => plainDigits? ds
  let e ← exponent? (cs.drop mantissa.length)
  match binary64.ofDecimal negative (ofDigits (wholeDigits ++ fraction)) (e - fraction.length) with
  | .infinite _ => none
  | x => some x

/-- The floating-point number that a word writes. -/
def float? (cs : List Char) : Option Floating :=
  let (negative, body) := takeSign cs
  if body == "inf".toList then some (.infinite negative)
  else if body == "nan".toList then some .nan
  else decimalFloat? negative body

/-! ### Dates -/

/-- The number that exactly so many digits at the front of a text write, and the rest. -/
def takeNumber? (count : Nat) (cs : List Char) : Option (Nat × List Char) :=
  let ds := cs.take count
  if ds.length = count && ds.all Char.isDigit then some (ofDigits ds, cs.drop count) else none

/-- The text after a character. -/
def after? (c : Char) : List Char → Option (List Char)
  | d :: cs => if c = d then some cs else none
  | [] => none

/-- The number of days of a month. -/
def daysOfMonth (year month : Nat) : Nat :=
  if month = 2 then
    if year % 4 = 0 && (year % 100 != 0 || year % 400 = 0) then 29 else 28
  else if [4, 6, 9, 11].contains month then 30
  else 31

/-- The text after the day at its front. -/
def afterDay? (cs : List Char) : Option (List Char) := do
  let (year, cs) ← takeNumber? 4 cs
  let cs ← after? '-' cs
  let (month, cs) ← takeNumber? 2 cs
  let cs ← after? '-' cs
  let (day, cs) ← takeNumber? 2 cs
  if 1 ≤ month && month ≤ 12 && 1 ≤ day && day ≤ daysOfMonth year month then some cs else none

/-- The fraction of a second that digits write, as it is kept: at most nine digits, without zeros
at their end. -/
def fractionText (ds : List Char) : List Char :=
  let kept := ((ds.take 9).reverse.dropWhile (· == '0')).reverse
  if kept.isEmpty then [] else '.' :: kept

/-- The fraction of a second at the front of a text, as it is kept, and the text after it. -/
def fraction? : List Char → Option (List Char × List Char)
  | '.' :: cs =>
    let ds := cs.takeWhile Char.isDigit
    if ds.isEmpty then none else some (fractionText ds, cs.drop ds.length)
  | cs => some ([], cs)

/-- The time of day at the front of a text, as it is kept, and the text after it. -/
def time? (cs : List Char) : Option (List Char × List Char) := do
  let (hour, rest) ← takeNumber? 2 cs
  let rest ← after? ':' rest
  let (minute, rest) ← takeNumber? 2 rest
  let rest ← after? ':' rest
  let (second, rest) ← takeNumber? 2 rest
  if hour ≤ 23 && minute ≤ 59 && second ≤ 60 then
    (fraction? rest).map fun (fraction, rest) => (cs.take 8 ++ fraction, rest)
  else none

/-- The difference to universal time that a text writes, as it is kept. It may be left out. -/
def offset? : List Char → Option (List Char)
  | [] => some []
  | [c] => if c == 'Z' || c == 'z' then some ['Z'] else none
  | sign :: cs => do
    let (hour, rest) ← takeNumber? 2 cs
    let rest ← after? ':' rest
    let (minute, rest) ← takeNumber? 2 rest
    if (sign == '+' || sign == '-') && hour ≤ 23 && minute ≤ 59 && rest.isEmpty then
      some ((if hour = 0 && minute = 0 then '+' else sign) :: cs)
    else none

/-- The text of the date, the time or both that a word writes, as it is kept. -/
def date? (cs : List Char) : Option (List Char) :=
  match afterDay? cs with
  | some [] => some cs
  | some (c :: rest) =>
    if c == 'T' || c == 't' || c == ' ' then do
      let (time, rest) ← time? rest
      let offset ← offset? rest
      return cs.take 10 ++ 'T' :: time ++ offset
    else none
  | none =>
    match time? cs with
    | some (time, []) => some time
    | _ => none

/-- The key under which the text of a date stands. -/
def dateKey : String := "$__toml_private_datetime"

/-- A date with its text. -/
def dateTable (text : List Char) : Data := .table [(dateKey, .string (String.ofList text))]

/-- The value that a word writes. -/
def scalar? (cs : List Char) : Option Data :=
  if cs == "true".toList then some (.bool true)
  else if cs == "false".toList then some (.bool false)
  else
    (date? cs).map dateTable <|> (integer? cs).map Data.integer <|> (float? cs).map Data.float

end SearchQuery.Toml
