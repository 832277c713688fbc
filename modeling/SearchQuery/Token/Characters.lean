import SearchQuery.Text.Blank

/-!
# Characters of the query language

A bare word takes every character that nothing else claims: blanks, quotes and a few operators end
it, and signs, slashes and commas only cannot begin it. So `C++` and `and/or` are words.

A backslash makes the next character part of a word. Words and phrases hold their backslashes, and
`unescape` takes away those that make a character literal; a backslash before any other character
means itself. All quote glyphs are the same to the reader, which lets a phrase end in another glyph
than it began with.

## Main definitions

* `isQuote`, `plainQuote` — the quote glyphs, all of which stand for the straight double quote
* `isTermStop`, `isTermChar`, `isTermStart` — the characters of a bare word
* `isEscapable`, `unescape` — the characters that a backslash makes literal, and the text without
  such backslashes

## Main results

* `unescapeChars_escapeChars` — every text is the content of some escaped one
-/

namespace SearchQuery

open Text

/-- The glyphs that begin and end a phrase. -/
def quoteGlyphs : List Char := ['"', '\'', '“', '”', '‘', '«', '»', '„', '\x60']

/-- Whether `c` begins and ends phrases. -/
def isQuote (c : Char) : Bool := quoteGlyphs.contains c

/-- The straight double quote for every quote glyph, and any other character as it is. -/
def plainQuote (c : Char) : Char := if isQuote c then '"' else c

/-- The characters that never stand in a bare word without a backslash, blanks and quotes apart. -/
def isTermStop (c : Char) : Bool :=
  [':', '^', '\\', '~', '(', ')', '\x7b', '\x7d', '[', ']'].contains c

/-- Whether `c` may continue a bare word. -/
def isTermChar (c : Char) : Bool := !isBlank c && !isTermStop c && !isQuote c

/-- Whether `c` may begin a bare word. -/
def isTermStart (c : Char) : Bool := isTermChar c && c ∉ ['/', ',', '+', '-']

/-- The characters that a backslash makes literal. -/
def isEscapable (c : Char) : Bool :=
  ['+', '-', '&', '|', '!', '(', ')', '\x7b', '\x7d', '[', ']', '^', '"', '~', '*', '?', ':',
    '\\'].contains c

/-- The text without the backslashes that make the next character literal. Other backslashes
stay. -/
def unescapeChars : List Char → List Char
  | [] => []
  | [c] => [c]
  | c :: d :: cs =>
    if c = '\\' && isEscapable d then d :: unescapeChars cs else c :: unescapeChars (d :: cs)

/-- The text without the backslashes that make the next character literal. -/
def unescape (s : String) : String := String.ofList (unescapeChars s.toList)

/-- The text with a backslash before every character that one makes literal. -/
def escapeChars (cs : List Char) : List Char :=
  cs.flatMap fun c => if isEscapable c then ['\\', c] else [c]

/-- A text is the content of its escaped form. -/
theorem unescapeChars_escapeChars (cs : List Char) : unescapeChars (escapeChars cs) = cs := by
  induction cs with
  | nil => rfl
  | cons c cs ih =>
    rw [escapeChars, List.flatMap_cons, ← escapeChars]
    by_cases hc : isEscapable c
    · simp [hc, unescapeChars, ih]
    · have hne : c ≠ '\\' := by rintro rfl; exact hc rfl
      simp only [hc, Bool.false_eq_true, if_false, List.singleton_append]
      cases h : escapeChars cs with
      | nil => rw [h] at ih; simp [unescapeChars, ← ih]
      | cons d ds => rw [h] at ih; simp [unescapeChars, hne, ih]

end SearchQuery
