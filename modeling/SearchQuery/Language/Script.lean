import SearchQuery.Text.Alphabetic
import SearchQuery.Number.Floating

/-!
# Languages known by their script

Latin letters are shared by too many languages. A text that is mostly in Cyrillic or Greek letters
is taken for Russian or Greek.

Only letters count, so digits, blanks and signs change nothing, and a text without letters has no
language. The share is a ratio of two counts rounded to 32 bits before it is compared, as it would
be in the arithmetic of that format.

## Main definitions

* `detect?` — the language of a text whose letters are in one script to a given share
-/

namespace SearchQuery.Language

open Number

/-- Whether `c` is in the Cyrillic block. -/
def isCyrillic (c : Char) : Bool := 0x0400 ≤ c.toNat && c.toNat ≤ 0x04FF

/-- Whether `c` is in the Greek block. -/
def isGreek (c : Char) : Bool := 0x0370 ≤ c.toNat && c.toNat ≤ 0x03FF

/-- The usual share of letters in one script. -/
def usualShare : Floating := binary32.ofRatio false 1 2

/-- Whether the letters that satisfy `p` are at least the given share of all. -/
def hasShare (share : Floating) (letters : List Char) (p : Char → Bool) : Bool :=
  share.le binary32 (binary32.ofRatio false (letters.countP p) letters.length)

/-- The language of a text: Russian if its letters are Cyrillic to the given share, else Greek if
they are Greek to that share. -/
def detect? (share : Floating) (text : String) : Option String :=
  let letters := text.toList.filter Text.isAlphabetic
  if letters.isEmpty then none
  else if hasShare share letters isCyrillic then some "ru"
  else if hasShare share letters isGreek then some "el"
  else none

end SearchQuery.Language
