import SearchQuery.Expr.Parser
import SearchQuery.Document.Compile

/-!
# Messages about queries that cannot be used

A diagnostic shows a message, the query, a caret under the place and, for common mistakes, a hint.

## Places

A place is a number of bytes, since that is how tokens are placed, and a column is a number of
characters. A place at the end of the input is the end of the query. A place that is inside a
character, which no token has, is shown at the first column.

## Hints

The hint is chosen by the message and not by the error: a message that mentions the end of the input
gets the hint about brackets, whatever else is in it. The message of an unexpected token holds the
text of the token, so a query can put these words there itself.

## Main definitions

* `SyntaxError.message`, `SyntaxError.position?` — the message of a syntax error and its place
* `Diagnostic` — a message with the phase it comes from, its place and the query
* `Diagnostic.suggestion?` — the hint
* `Diagnostic.text` — the diagnostic as shown
-/

namespace SearchQuery

/-- The message of a syntax error. -/
def SyntaxError.message : SyntaxError → String
  | unexpected token => "unexpected '" ++ token.raw ++ "'"
  | endOfInput => "unexpected end of input (maybe due to unmatched parenthesis)"

/-- Where the offending token begins, in bytes; none at the end of the input. -/
def SyntaxError.position? : SyntaxError → Option Nat
  | unexpected token => some token.position
  | endOfInput => none

/-- The phase in which a query was found to be unusable. -/
inductive Phase where
  /-- Its text is no query. -/
  | reading
  /-- Its tree has no structured document. -/
  | compiling
  deriving DecidableEq, Repr

/-- A message about a query. -/
structure Diagnostic where
  /-- The phase the message comes from. -/
  phase : Phase
  /-- The message. -/
  message : String
  /-- The place, in bytes from the beginning of the query. -/
  position : Option Nat
  /-- The query, if it is known. -/
  query : Option String
  deriving DecidableEq, Repr

/-- A message with its place, on one line. -/
def located (message : String) : Option Nat → String
  | some position => message ++ " at position " ++ Number.numeral position
  | none => message ++ " at the end"

namespace Diagnostic

/-- The diagnostic of a syntax error in a query. -/
def ofSyntaxError (err : SyntaxError) (query : Option String) : Diagnostic :=
  ⟨.reading, err.message, err.position?, query⟩

/-- The diagnostic of a node that has no clause in its field. -/
def ofUnsupported (err : Unsupported) : Diagnostic := ⟨.compiling, err.message, none, none⟩

/-- Whether the text holds the given one. -/
def containsChars (needle : List Char) : List Char → Bool
  | [] => needle.isEmpty
  | c :: cs => needle.isPrefixOf (c :: cs) || containsChars needle cs

/-- Whether the message holds the given text. -/
def mentions (d : Diagnostic) (needle : String) : Bool :=
  containsChars needle.toList d.message.toList

/-- The hint for a common mistake. -/
def suggestion? (d : Diagnostic) : Option String :=
  match d.phase with
  | .reading =>
    if d.mentions "end of input" then
      some "Check that every opening parenthesis or bracket is closed"
    else if d.mentions "'TO'" then
      some "Ranges are written as [from TO to] or \x7bfrom TO to\x7d"
    else none
  | .compiling =>
    if d.mentions "search field" then
      some "Fields accept words, phrases, regexes, ranges and groups of those"
    else none

/-- The number of characters in the first `bytes` bytes of a text, if a character ends there. -/
def charsWithin? (bytes : Nat) : List Char → Option Nat
  | [] => if bytes = 0 then some 0 else none
  | c :: cs =>
    if bytes = 0 then some 0
    else if c.utf8Size ≤ bytes then (charsWithin? (bytes - c.utf8Size) cs).map (· + 1)
    else none

/-- The column of a place, counted in characters. A place beyond the end is the end, and one
inside a character is the first column. -/
def column (query : String) (position : Nat) : Nat :=
  (charsWithin? (min position (byteLength query.toList)) query.toList).getD 0

/-- The line with the caret under the place. A syntax error without a place is at the end. -/
def caretLine (query : String) (position : Option Nat) : String :=
  let place := position.getD (byteLength query.toList)
  String.ofList (' ' :: ' ' :: List.replicate (column query place) ' ' ++ ['^', '\n'])

/-- What the message begins with. -/
def heading : Phase → String
  | .reading => "query syntax error: "
  | .compiling => "query error: "

/-- The diagnostic as shown. -/
def text (d : Diagnostic) : String :=
  let context := match d.query with
    | none => ""
    | some query =>
      "  " ++ query ++ "\n" ++
        match d.phase with
        | .reading => caretLine query d.position
        | .compiling => ""
  let hint := match d.suggestion? with
    | some s => "hint: " ++ s
    | none => ""
  heading d.phase ++ d.message ++ "\n" ++ context ++ hint

end Diagnostic

end SearchQuery
