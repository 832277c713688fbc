import SearchQuery.Text.Blank
import SearchQuery.Text.Alphabetic
import SearchQuery.Text.Case

/-!
# Web addresses and digital object identifiers

Both are read from the front of a text; the readers say how many characters they take.

An address opens with a scheme or with `www.` in any case and goes on up to a blank, a bracket or
a quote. An identifier is `10.` with four to nine digits, a slash with at most one blank on each
side, and a name that ends in a letter or digit.

## Greedy readers

Each part takes as many characters as it can. That is the whole search: the digits of a registrant
are followed by something that is no digit, so a run of ten has no shorter reading, and the name
takes all characters that it may hold and then gives those at its end back that it may not end in.

The blanks around the slash are part of the raw text of a token and not of its value, which is in
lowercase and has none. Identifiers that differ in these are the same.

## Main definitions

* `Url.length?` — the length of the address at the front of a text
* `Doi.split?` — the parts of the identifier at the front of a text
* `Doi.find?` — the first identifier anywhere in a text
* `Doi.pattern?` — the part before the asterisk of a text that asks for all names with a beginning
-/

namespace SearchQuery

open Text

/-! ### Web addresses -/

namespace Url

/-- Whether `c` is the letter `s` up to case. The long s counts. -/
def isLetterS (c : Char) : Bool := c == 's' || c == 'S' || c == 'ſ'

/-- Whether `c` may stand in the body of an address. -/
def isBodyChar (c : Char) : Bool :=
  !isBlank c && c ∉ ['(', ')', '[', ']', '\x7b', '\x7d', '<', '>', '^', '~', '"', '\'', '“', '”',
    '‘', '«', '»', '„', '\x60']

/-- Whether `c` is the lowercase letter `l` up to case. -/
def isLetter (l c : Char) : Bool := c.toLower == l

/-- The number of characters of `://` at the front of a text. -/
def separatorLength? : List Char → Option Nat
  | ':' :: '/' :: '/' :: _ => some 3
  | _ => none

/-- The number of characters of the opening of an address. -/
def openingLength? : List Char → Option Nat
  | a :: b :: c :: d :: cs =>
    if isLetter 'h' a && isLetter 't' b && isLetter 't' c && isLetter 'p' d then
      match cs with
      | e :: es =>
        if isLetterS e then (separatorLength? es).map (· + 5)
        else (separatorLength? cs).map (· + 4)
      | [] => none
    else if isLetter 'w' a && isLetter 'w' b && isLetter 'w' c && d == '.' then some 4
    else none
  | _ => none

/-- The number of characters of the address at the front of a text. -/
def length? (cs : List Char) : Option Nat :=
  (openingLength? cs).bind fun n =>
    let body := (cs.drop n).takeWhile isBodyChar
    if body.isEmpty then none else some (n + body.length)

end Url

/-! ### Digital object identifiers -/

namespace Doi

/-- Whether `c` is a letter or digit of ASCII. -/
def isNameEnd (c : Char) : Bool := c.isAlphanum

/-- Whether `c` may stand in the name of an identifier. -/
def isNameChar (c : Char) : Bool := c.isAlphanum || ['-', '.', '_', ';', ':', '/'].contains c

/-- The registrant's part at the front of a text: `10.` and four to nine digits, no digit
following. -/
def registrant? : List Char → Option (List Char)
  | '1' :: '0' :: '.' :: cs =>
    let ds := cs.takeWhile isDecimalDigit
    if 4 ≤ ds.length && ds.length ≤ 9 then some ('1' :: '0' :: '.' :: ds) else none
  | _ => none

/-- One if a blank begins the text, else zero. -/
def blankLength : List Char → Nat
  | c :: _ => if isBlank c then 1 else 0
  | [] => 0

/-- The longest name at the front of a text. It ends in a letter or digit. -/
def name (cs : List Char) : List Char :=
  ((cs.takeWhile isNameChar).reverse.dropWhile (!isNameEnd ·)).reverse

/-- The registrant's part and the name of the identifier at the front of a text, and the number of
characters they take with the slash and the blanks around it. -/
def split? (cs : List Char) : Option (List Char × List Char × Nat) :=
  (registrant? cs).bind fun registrant =>
    let before := registrant.length + blankLength (cs.drop registrant.length)
    match cs.drop before with
    | '/' :: rest =>
      let gap := blankLength rest
      let found := name (rest.drop gap)
      if found.isEmpty then none
      else some (registrant, found, before + 1 + gap + found.length)
    | _ => none

/-- The lowercase text of an identifier. -/
def join (registrant name : List Char) : String :=
  String.ofList (lowercase (registrant ++ '/' :: name))

/-- The first identifier in a text. -/
def findChars? : List Char → Option String
  | [] => none
  | c :: cs =>
    match split? (c :: cs) with
    | some (registrant, found, _) => some (join registrant found)
    | none => findChars? cs

/-- The first identifier in a text. -/
def find? (s : String) : Option String := findChars? s.toList

/-- The part before the asterisk of a text that is nothing but the beginning of an identifier and
an asterisk. The beginning may stop after the registrant's part. -/
def pattern? (cs : List Char) : Option (List Char) :=
  (registrant? cs).bind fun registrant =>
    let rest := cs.drop registrant.length
    let tail := match rest with
      | '/' :: more => '/' :: more.takeWhile isNameChar
      | _ => []
    if rest.drop tail.length == ['*'] then some (registrant ++ tail) else none

end Doi

end SearchQuery
