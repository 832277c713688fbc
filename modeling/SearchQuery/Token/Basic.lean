import SearchQuery.Decimal.Text

/-!
# Tokens of a query

A lexeme is what the grammar looks at. A token keeps the text that it was read from as well, and the
number of bytes before it: the text is shown in messages, and it is what the reserved word between
bounds stands for where it is an ordinary word.

The reserved word is a lexeme of its own in either case, since only the grammar knows whether it
stands between bounds.

## Main definitions

* `Lexeme` — what a token stands for
* `Token` — a lexeme with the text it was read from and where that text begins
-/

namespace SearchQuery

/-- What a token stands for. -/
inductive Lexeme where
  /-- A web address. -/
  | url (value : String)
  /-- A digital object identifier in lowercase, written `registrant/name`. -/
  | doi (value : String)
  /-- A bare word, its escapes kept. -/
  | term (value : String)
  /-- A quoted phrase without its quotes. -/
  | phrase (value : String)
  /-- A regular expression without its slashes. -/
  | regex (value : String)
  /-- A tilde with an optional degree. -/
  | approx (degree : Option Decimal)
  /-- A caret with an optional degree. -/
  | boost (degree : Option Decimal)
  /-- The sign of a requirement. -/
  | plus
  /-- The sign of an exclusion. -/
  | minus
  /-- The colon between a field and its expression. -/
  | colon
  /-- An opening parenthesis. -/
  | lparen
  /-- A closing parenthesis. -/
  | rparen
  /-- The opening bracket of a range, square if the bound is included. -/
  | lbracket (inclusive : Bool)
  /-- The closing bracket of a range, square if the bound is included. -/
  | rbracket (inclusive : Bool)
  /-- The reserved word between the bounds of a range. -/
  | to
  deriving DecidableEq, Repr

/-- A token. -/
structure Token where
  /-- What the token stands for. -/
  lexeme : Lexeme
  /-- The text that the token was read from. -/
  raw : String
  /-- Where that text begins, in bytes. -/
  position : Nat
  deriving DecidableEq, Repr

end SearchQuery
