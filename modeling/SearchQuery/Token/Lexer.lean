import SearchQuery.Token.Basic
import SearchQuery.Token.Characters
import SearchQuery.Token.Identifier

/-!
# Reading the tokens of a query

Every text has tokens: characters that begin none are skipped. At each position the readers are
tried in a fixed order: address, identifier, bare word, phrase, regular expression, then the
operators.

## Readers

A reader is called with the first character and the text after it, and answers with a lexeme and
the number of further characters that belong to it. So whatever it answers, what remains to be
read is shorter.

What a reader may need from outside its own text is the character before: a colon counts only
between two characters that are no blanks. Signs look at the character after them, and everything
else is decided by what belongs to the token. A phrase or regular expression that is not closed is
no token; its opening character is skipped, and what follows is read as if it were not there.

## Numbers

A degree after a tilde or caret takes all digits and points that follow, or none of them: if they
are no decimal number, the operator stands without a degree and they are read as a word.

## Main definitions

* `readLexeme?` — the lexeme that begins with a given character
* `tokensFrom` — the tokens of a text from some position on
* `tokenize` — the tokens of a text
-/

namespace SearchQuery

open Text

/-! ### Readers -/

/-- The number of characters of the bare word at the front of a text. A backslash takes the next
character with it, whatever that is. -/
def termLength : List Char → Nat
  | [] => 0
  | ['\\'] => 0
  | '\\' :: _ :: cs => termLength cs + 2
  | c :: cs => if isTermChar c then termLength cs + 1 else 0

/-- The content of a phrase up to its closing quote, and the number of characters read with it.
Escapes are kept, with a straight quote for every quote glyph. -/
def phraseBody? : List Char → Option (List Char × Nat)
  | [] => none
  | ['\\'] => none
  | '\\' :: c :: cs => (phraseBody? cs).map fun (body, n) => ('\\' :: plainQuote c :: body, n + 2)
  | c :: cs =>
    if isQuote c then some ([], 1)
    else (phraseBody? cs).map fun (body, n) => (c :: body, n + 1)

/-- The content of a regular expression up to its closing slash, and the number of characters read
with it. An escaped slash loses its backslash, other escapes are kept. -/
def regexBody? : List Char → Option (List Char × Nat)
  | [] => none
  | ['\\'] => none
  | '\\' :: c :: cs =>
    (regexBody? cs).map fun (body, n) =>
      (if c = '/' then (c :: body, n + 2) else ('\\' :: c :: body, n + 2))
  | c :: cs =>
    if c = '/' then some ([], 1) else (regexBody? cs).map fun (body, n) => (c :: body, n + 1)

/-- The degree after a tilde or caret and its number of characters. What is no decimal number is
left for the next token. -/
def degree (cs : List Char) : Option Decimal × Nat :=
  let run := cs.takeWhile fun c => c.isDigit || c == '.'
  match Decimal.ofChars? run with
  | some d => (some d, run.length)
  | none => (none, 0)

/-- The identifier that begins with `c`, unless it goes on as a bare word. -/
def readDoi? (c : Char) (cs : List Char) : Option (Lexeme × Nat) :=
  (Doi.split? (c :: cs)).bind fun (registrant, name, n) =>
    match (c :: cs).drop n with
    | d :: _ => if isTermChar d then none else some (.doi (Doi.join registrant name), n - 1)
    | [] => some (.doi (Doi.join registrant name), n - 1)

/-- The address that begins with `c`. -/
def readUrl? (c : Char) (cs : List Char) : Option (Lexeme × Nat) :=
  (Url.length? (c :: cs)).map fun n => (.url (String.ofList ((c :: cs).take n)), n - 1)

/-- The lexeme of a bare word. -/
def Lexeme.ofWord (word : String) : Lexeme :=
  if word = "TO" || word = "to" then .to else .term word

/-- Whether a character follows that is not a blank. -/
def touches : List Char → Bool
  | c :: _ => !isBlank c
  | [] => false

/-- The lexeme of one character, which may depend on its neighbours: signs need something to apply
to, and a colon needs both sides. -/
def readOperator? (prev : Option Char) (c : Char) (cs : List Char) : Option (Lexeme × Nat) :=
  match c with
  | '/' => (regexBody? cs).map fun (body, n) => (.regex (String.ofList body), n)
  | '~' => some (.approx (degree cs).1, (degree cs).2)
  | '^' => some (.boost (degree cs).1, (degree cs).2)
  | '+' => if touches cs then some (.plus, 0) else none
  | '-' => if touches cs then some (.minus, 0) else none
  | ':' => if touches prev.toList && touches cs then some (.colon, 0) else none
  | '(' => some (.lparen, 0)
  | ')' => some (.rparen, 0)
  | '[' => some (.lbracket true, 0)
  | '\x7b' => some (.lbracket false, 0)
  | ']' => some (.rbracket true, 0)
  | '\x7d' => some (.rbracket false, 0)
  | _ => none

/-- The bare word, phrase or operator that begins with `c`. -/
def readPlain? (prev : Option Char) (c : Char) (cs : List Char) : Option (Lexeme × Nat) :=
  if isTermStart c || (c == '\\' && !cs.isEmpty) then
    let n := termLength (c :: cs)
    some (.ofWord (String.ofList ((c :: cs).take n)), n - 1)
  else if isQuote c then
    (phraseBody? cs).map fun (body, n) => (.phrase (String.ofList body), n)
  else readOperator? prev c cs

/-- The lexeme that begins with `c`, where `prev` stands before it and `cs` after it, and the
number of characters of `cs` that belong to it. -/
def readLexeme? (prev : Option Char) (c : Char) (cs : List Char) : Option (Lexeme × Nat) :=
  if isBlank c then none
  else readUrl? c cs <|> readDoi? c cs <|> readPlain? prev c cs

/-! ### Tokens -/

/-- The number of bytes of a text. -/
def byteLength : List Char → Nat
  | [] => 0
  | c :: cs => c.utf8Size + byteLength cs

/-- The tokens of a text that begins at byte `position`, after the character `prev`. -/
def tokensFrom (prev : Option Char) (position : Nat) : List Char → List Token
  | [] => []
  | c :: cs =>
    match readLexeme? prev c cs with
    | none => tokensFrom (some c) (position + c.utf8Size) cs
    | some (lexeme, n) =>
      let raw := c :: cs.take n
      ⟨lexeme, String.ofList raw, position⟩ ::
        tokensFrom raw.getLast? (position + byteLength raw) (cs.drop n)
termination_by cs => cs.length
decreasing_by all_goals simp_wf; try omega

/-- The tokens of a text. -/
def tokenize (s : String) : List Token := tokensFrom none 0 s.toList

end SearchQuery
