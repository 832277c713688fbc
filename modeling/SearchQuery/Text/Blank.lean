import SearchQuery.Text.Ranges

/-!
# Blanks, words and lines

Splitting a text at its blanks, at its line ends or at one character. Every function works on the
list of characters and keeps their order, and the ones on strings do nothing else.

Everything is an instance of `splitWhere`, which keeps empty pieces: words are the pieces between
blanks that are not empty, lines are the pieces between line feeds, and the terms of a list are the
pieces between commas. A line feed ends a line and does not begin one, so a text that ends in one
has no empty line after it.

## Main definitions

* `isBlank` — the Unicode property `White_Space`
* `isControl` — the general category `Cc`
* `splitWhere` — the pieces between the characters that satisfy a test, empty pieces included
* `words` — the maximal runs without blanks
* `trim` — the text without the blanks at its ends
* `lines` — the lines of a text without their ends
-/

namespace SearchQuery.Text

/-- The characters with the property `White_Space`. -/
def blankRanges : List (Nat × Nat) :=
  [(0x0009, 0x000D), (0x0020, 0x0020), (0x0085, 0x0085), (0x00A0, 0x00A0), (0x1680, 0x1680),
   (0x2000, 0x200A), (0x2028, 0x2029), (0x202F, 0x202F), (0x205F, 0x205F), (0x3000, 0x3000)]

/-- Whether `c` is white space. -/
def isBlank (c : Char) : Bool := inRanges blankRanges c

/-- Whether `c` is a control character. -/
def isControl (c : Char) : Bool := c.toNat < 0x20 || (0x7F ≤ c.toNat && c.toNat < 0xA0)

/-! ### Pieces -/

/-- The pieces between the characters that satisfy `p`. -/
def splitWhere (p : Char → Bool) : List Char → List (List Char)
  | [] => [[]]
  | c :: cs =>
    if p c then [] :: splitWhere p cs
    else match splitWhere p cs with
      | [] => [[c]]
      | piece :: pieces => (c :: piece) :: pieces

/-- The maximal runs of characters that are not blank. -/
def words (cs : List Char) : List (List Char) :=
  (splitWhere isBlank cs).filter fun piece => !piece.isEmpty

/-- The text without the blanks at its end. -/
def trimEnd (cs : List Char) : List Char := (cs.reverse.dropWhile isBlank).reverse

/-- The text without the blanks at its ends. -/
def trim (cs : List Char) : List Char := trimEnd (cs.dropWhile isBlank)

/-- The pieces, with the given characters between them. -/
def joinWith (separator : List Char) (pieces : List (List Char)) : List Char :=
  List.intercalate separator pieces

/-! ### Lines -/

/-- The line without the carriage return that precedes its line feed. -/
def dropReturn (line : List Char) : List Char :=
  if line.getLast? == some '\r' then line.dropLast else line

/-- The lines that end in a line feed, without their ends, and the rest if there is any. -/
def finishLines : List (List Char) → List (List Char)
  | [] => []
  | [last] => if last.isEmpty then [] else [last]
  | line :: rest => dropReturn line :: finishLines rest

/-- The lines of a text. A line feed ends a line, a carriage return before it belongs to the end,
and after the last line feed a line begins only if something follows. -/
def lines (cs : List Char) : List (List Char) := finishLines (splitWhere (· == '\n') cs)

/-! ### Strings -/

/-- The text without the blanks at its ends. -/
def trimmed (s : String) : String := String.ofList (trim s.toList)

/-- The number of words of a text. -/
def wordCount (s : String) : Nat := (words s.toList).length

/-- The lines of a text, in order. -/
def linesOf (s : String) : List String := (lines s.toList).map String.ofList

/-- The pieces of a text between the occurrences of a character. -/
def piecesAt (c : Char) (s : String) : List String :=
  (splitWhere (· == c) s.toList).map String.ofList

/-- The text before the first occurrence of `c`, or all of it. -/
def upTo (c : Char) (s : String) : String := String.ofList (s.toList.takeWhile (· != c))

end SearchQuery.Text
