import SearchQuery.Text.Printable

/-!
# Quoted texts

A text between double quotes on one line, in which quotes, backslashes, line ends and everything
that does not print are written as escapes.

Every character is written by itself, whatever stands around it. An escape begins with a backslash,
and a backslash is written as an escape, so the pieces of a quotation can be told apart and no two
texts have the same one. There is no reader: quotations are for people.

## Main definitions

* `hexDigits` — a code point in lowercase hexadecimal digits
* `escapeChar` — how a quotation writes one character
* `quote` — the quotation of a text
-/

namespace SearchQuery.Text

/-- The number in lowercase hexadecimal digits, without leading zeros. -/
def hexDigits (n : Nat) : List Char := Nat.toDigits 16 n

/-- How a quotation writes one character. -/
def escapeChar (c : Char) : List Char :=
  if c = '\x00' then ['\\', '0']
  else if c = '\t' then ['\\', 't']
  else if c = '\r' then ['\\', 'r']
  else if c = '\n' then ['\\', 'n']
  else if c = '"' then ['\\', '"']
  else if c = '\\' then ['\\', '\\']
  else if isHiddenInQuotes c then ['\\', 'u', '\x7b'] ++ hexDigits c.toNat ++ ['\x7d']
  else [c]

/-- The quotation of a text. -/
def quote (s : String) : String :=
  String.ofList ('"' :: s.toList.flatMap escapeChar ++ ['"'])

end SearchQuery.Text
