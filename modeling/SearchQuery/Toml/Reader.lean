import SearchQuery.Toml.Quoted
import SearchQuery.Toml.Slots

/-!
# Reading settings files

A settings file is a TOML document, version 1.0: lines with a key and a value, with the header of a
table, or with nothing but a comment. Values may go over several lines.

## Limits

Arrays and inline tables are nested no deeper than a limit, and a key has no more parts than that.
These are limits of the language that is read here: a document beyond them is refused.

The readers of values count down a second number, which is no limit. Each call takes a character or
goes from an element to its value, so twice the length of the text is enough, and no document is
refused for want of it.

## What tables allow

Which keys and headers may follow which is a matter of the tables under construction. A line is read
first and then entered, and a line that cannot be entered makes the document malformed. Dates are
kept as tables with their text, so that nothing else in the settings takes them for a text.

## Main definitions

* `Toml.nestingLimit` — the limit
* `Toml.key?` — the parts of a key at the front of a text
* `Toml.value?` — the value at the front of a text
* `Toml.read?` — the table that a document holds
-/

namespace SearchQuery.Toml

/-- How deep arrays and inline tables may be nested, and how many parts a key may have. -/
def nestingLimit : Nat := 80

/-- The text without the spaces and tabs at its front. -/
def skipSpaces (cs : List Char) : List Char := cs.dropWhile isSpace

/-- The text after the comment at its front, if there is one. -/
def skipComment? : List Char → Option (List Char)
  | '#' :: cs =>
    let rest := cs.dropWhile isPlain
    if rest.isEmpty || 0 < lineEndLength rest then some rest else none
  | cs => some cs

/-- The text without the blanks, line ends and comments at its front. -/
def skipLines? : Nat → List Char → Option (List Char)
  | 0, cs => some cs
  | fuel + 1, cs => do
    let rest ← skipComment? (skipSpaces cs)
    let n := lineEndLength rest
    if 0 < n then skipLines? fuel (rest.drop n) else some rest

/-- The text without everything at its front that means nothing between the elements of an
array. -/
def skipFiller? (cs : List Char) : Option (List Char) := skipLines? cs.length cs

/-! ### Keys -/

/-- Whether `c` may stand in a key without quotes. -/
def isBareKeyChar (c : Char) : Bool := c.isAlphanum || c == '_' || c == '-'

/-- One part of a key at the front of a text. -/
def keyPart? (cs : List Char) : Option (String × List Char) :=
  match cs with
  | '"' :: _ | '\'' :: _ => (quoted? cs).map fun (part, rest) => (String.ofList part, rest)
  | _ =>
    let part := cs.takeWhile isBareKeyChar
    if part.isEmpty then none else some (String.ofList part, cs.drop part.length)

/-- The parts of a key after its first one. -/
def moreKeyParts? : Nat → List Char → Option (List String × List Char)
  | 0, _ => none
  | fuel + 1, cs =>
    match skipSpaces cs with
    | '.' :: rest => do
      let (part, rest) ← keyPart? (skipSpaces rest)
      let (parts, rest) ← moreKeyParts? fuel rest
      return (part :: parts, rest)
    | rest => some ([], rest)

/-- The parts of a key at the front of a text: the path to a table and the key in it. -/
def key? (cs : List Char) : Option (List String × String × List Char) := do
  let (part, rest) ← keyPart? cs
  let (parts, rest) ← moreKeyParts? (cs.length + 1) rest
  if parts.length < nestingLimit then
    some ((part :: parts).dropLast, (part :: parts).getLast?.getD part, rest)
  else none

/-! ### Values -/

/-- Whether a word ends before `c`. -/
def endsWord (c : Char) : Bool :=
  isSpace c || ['\n', '\r', ',', ']', '\x7d', '#', '=', '[', '\x7b', '"', '\''].contains c

/-- The word at the front of a text. A day may be followed by a space and a time. -/
def word (cs : List Char) : List Char :=
  let first := cs.takeWhile (!endsWord ·)
  match afterDay? first, cs.drop first.length with
  | some [], ' ' :: rest =>
    if (rest.head?.map Char.isDigit).getD false then
      first ++ ' ' :: rest.takeWhile (!endsWord ·)
    else first
  | _, _ => first

/-- The value that is one word at the front of a text. -/
def scalarValue? (cs : List Char) : Option (Data × List Char) :=
  let w := word cs
  (scalar? w).map fun d => (d, cs.drop w.length)

/-- The string at the front of a text. -/
def stringValue? : List Char → Option (Data × List Char)
  | '"' :: '"' :: '"' :: rest => (longBasic? (rest.drop (lineEndLength rest))).map pack
  | '\'' :: '\'' :: '\'' :: rest => (longLiteral? (rest.drop (lineEndLength rest))).map pack
  | cs => (quoted? cs).map pack
where
  /-- The content as a value. -/
  pack (r : List Char × List Char) : Data × List Char := (.string (String.ofList r.1), r.2)

mutual

/-- The value at the front of a text, with containers nested at most `depth` deep. -/
def valueWithin? : Nat → Nat → List Char → Option (Data × List Char)
  | 0, _, _ => none
  | fuel + 1, depth, cs =>
    match cs, depth with
    | '[' :: rest, depth + 1 =>
      (elements? fuel depth rest).map fun (ds, rest) => (.array ds, rest)
    | '\x7b' :: rest, depth + 1 =>
      match skipSpaces rest with
      | '\x7d' :: rest => some (.table [], rest)
      | rest =>
        (members? fuel depth [] rest).map fun (entries, rest) => (.table (finish entries), rest)
    | '"' :: _, _ | '\'' :: _, _ => stringValue? cs
    | _, _ => scalarValue? cs

/-- The elements of an array up to its closing bracket. -/
def elements? : Nat → Nat → List Char → Option (List Data × List Char)
  | 0, _, _ => none
  | fuel + 1, depth, cs => do
    match ← skipFiller? cs with
    | ']' :: rest => some ([], rest)
    | rest =>
      let (d, rest) ← valueWithin? fuel depth rest
      match ← skipFiller? rest with
      | ']' :: rest => some ([d], rest)
      | ',' :: rest =>
        let (ds, rest) ← elements? fuel depth rest
        some (d :: ds, rest)
      | _ => none

/-- The entries of an inline table up to its closing brace. -/
def members? : Nat → Nat → Entries → List Char → Option (Entries × List Char)
  | 0, _, _, _ => none
  | fuel + 1, depth, entries, cs => do
    let (path, key, rest) ← key? (skipSpaces cs)
    let rest ← after? '=' (skipSpaces rest)
    let (d, rest) ← valueWithin? fuel depth (skipSpaces rest)
    let entries ← insert? path key d entries
    match skipSpaces rest with
    | '\x7d' :: rest => some (entries, rest)
    | ',' :: rest => members? fuel depth entries rest
    | _ => none

end

/-- The value at the front of a text. -/
def value? (cs : List Char) : Option (Data × List Char) :=
  valueWithin? (2 * cs.length + 2) nestingLimit cs

/-! ### Documents -/

/-- A document while it is read: its entries so far, and the table that the last header opened. -/
structure Draft where
  /-- The entries of the document. -/
  entries : Entries
  /-- The path to the table that the last header opened. -/
  current : List String

/-- The text after the end of a line, where only a comment may stand before it. -/
def endLine? (cs : List Char) : Option (List Char) := do
  let rest ← skipComment? (skipSpaces cs)
  if rest.isEmpty then some []
  else if 0 < lineEndLength rest then some (rest.drop (lineEndLength rest))
  else none

/-- The document after a line, and the text after the line. -/
def line? (draft : Draft) (cs : List Char) : Option (Draft × List Char) :=
  match skipSpaces cs with
  | '[' :: '[' :: rest => do
    let (path, key, rest) ← key? (skipSpaces rest)
    let rest ← after? ']' (skipSpaces rest)
    let rest ← after? ']' rest
    let entries ← append? path key draft.entries
    return (⟨entries, path ++ [key]⟩, ← endLine? rest)
  | '[' :: rest => do
    let (path, key, rest) ← key? (skipSpaces rest)
    let rest ← after? ']' (skipSpaces rest)
    let entries ← open? path key draft.entries
    return (⟨entries, path ++ [key]⟩, ← endLine? rest)
  | c :: rest =>
    if c == '#' || 0 < lineEndLength (c :: rest) then
      (endLine? (c :: rest)).map fun rest => (draft, rest)
    else do
      let (path, key, rest) ← key? (c :: rest)
      let rest ← after? '=' (skipSpaces rest)
      let (d, rest) ← value? (skipSpaces rest)
      let entries ← modify? draft.current (insert? path key d) draft.entries
      return (⟨entries, draft.current⟩, ← endLine? rest)
  | [] => some (draft, [])

/-- The document after all lines. Every line is at least one character long. -/
def lines? : Nat → Draft → List Char → Option Draft
  | _, draft, [] => some draft
  | 0, _, _ => none
  | fuel + 1, draft, cs => do
    let (draft, rest) ← line? draft cs
    lines? fuel draft rest

/-- The table that a document holds. A byte order mark at its front does not count. -/
def read? (s : String) : Option Data :=
  let cs := match s.toList with
    | '\ufeff' :: cs => cs
    | cs => cs
  (lines? (cs.length + 1) ⟨[], []⟩ cs).map fun draft => .table (finish draft.entries)

end SearchQuery.Toml
