import SearchQuery.Data
import SearchQuery.Text.Quoted

/-!
# Writing settings files

The values of a table come first, one on a line, then the tables in it with their headers, a blank
line before each header. An array with several elements has each on a line of its own.

Values come first because a line after a header belongs to the table of that header. What is read
back therefore has the values of each table before the tables in it, in whatever order they were.

## Strings

A string is written without escapes where it can be, in quotes of another kind or over several lines
if need be. The choice looks at four things: characters that need an escape anywhere, backslashes,
line ends, and the longest run of quotes of either kind.

## What cannot be written

Whole numbers beyond 63 bits and floating-point numbers cannot be written, and neither can nothing
or a table as an element of an array. Nothing under a key is left out.

## Main definitions

* `Toml.keyChars`, `Toml.stringChars` — keys and strings, in quotes where they need them
* `Toml.valueText?` — a value, unless it cannot be written
* `Toml.write?` — the document that holds a table
-/

namespace SearchQuery.Toml

/-! ### Strings -/

/-- Whether `c` needs an escape wherever it stands. -/
def needsEscape (c : Char) : Bool :=
  (c.toNat < 0x20 && c != '\t' && c != '\n') || c.toNat == 0x7F

/-- The four hexadecimal digits of an escape. -/
def fourDigits (n : Nat) : List Char :=
  let ds := (Text.hexDigits n).map Char.toUpper
  List.replicate (4 - ds.length) '0' ++ ds

/-- How a basic string writes a character. -/
def basicChar (c : Char) : List Char :=
  match c with
  | '\x08' => ['\\', 'b']
  | '\t' => ['\\', 't']
  | '\n' => ['\\', 'n']
  | '\x0c' => ['\\', 'f']
  | '\r' => ['\\', 'r']
  | '"' => ['\\', '"']
  | '\\' => ['\\', '\\']
  | c => if needsEscape c then '\\' :: 'u' :: fourDigits c.toNat else [c]

/-- The text as a basic string. -/
def basicText (cs : List Char) : List Char := '"' :: cs.flatMap basicChar ++ ['"']

/-- The text as a literal string. -/
def literalText (cs : List Char) : List Char := '\'' :: cs ++ ['\'']

/-- The content of a basic string over several lines. Line ends stand for themselves, and so do
quotes but for every third one of a run; `run` quotes precede the text. -/
def longBasicBody (run : Nat) : List Char → List Char
  | [] => []
  | '\n' :: cs => '\n' :: longBasicBody 0 cs
  | '"' :: cs =>
    if run < 2 then '"' :: longBasicBody (run + 1) cs else '\\' :: '"' :: longBasicBody 0 cs
  | c :: cs => basicChar c ++ longBasicBody 0 cs

/-- The text as a basic string over several lines. A text with line ends begins on a line of its
own. -/
def longBasicText (cs : List Char) : List Char :=
  ['"', '"', '"'] ++ (if cs.contains '\n' then ['\n'] else []) ++ longBasicBody 0 cs ++
    ['"', '"', '"']

/-- The text as a literal string over several lines. A text with line ends begins on a line of its
own. -/
def longLiteralText (cs : List Char) : List Char :=
  ['\'', '\'', '\''] ++ (if cs.contains '\n' then ['\n'] else []) ++ cs ++ ['\'', '\'', '\'']

/-- The length of the longest run of a character. -/
def longestRun (c : Char) : Nat → List Char → Nat
  | run, [] => run
  | run, d :: cs => if d = c then longestRun c (run + 1) cs else max run (longestRun c 0 cs)

/-- A string: basic if nothing in it needs an escape but tabs, else literal if it can be, else
between three quotes if that saves escapes, else basic with escapes. -/
def stringChars (cs : List Char) : List Char :=
  let controls := cs.any needsEscape
  let newline := cs.contains '\n'
  let backslash := cs.contains '\\'
  let doubles := longestRun '"' 0 cs
  let singles := longestRun '\'' 0 cs
  if !controls && !backslash && doubles = 0 && !newline then basicText cs
  else if !controls && singles = 0 && !newline then literalText cs
  else if !controls && !backslash && doubles ≤ 2 then longBasicText cs
  else if !controls && singles ≤ 2 then longLiteralText cs
  else if newline then longBasicText cs
  else basicText cs

/-- Whether `c` may stand in a key without quotes. -/
def isBareChar (c : Char) : Bool := c.isAlphanum || c == '_' || c == '-'

/-- A key: bare if it can be, else in quotes. -/
def keyChars (cs : List Char) : List Char :=
  let controls := cs.any fun c => needsEscape c || c == '\n'
  if !cs.isEmpty && cs.all isBareChar then cs
  else if !controls && !cs.contains '\\' && !cs.contains '"' then basicText cs
  else if !controls && !cs.contains '\'' then literalText cs
  else basicText cs

/-! ### Values -/

/-- The values that stand under a key of their own line, nothing and tables apart. -/
def isInline : Data → Bool
  | .table _ => false
  | .null => false
  | _ => true

/-- The elements of an array in brackets: none or one on the same line, more on lines of their
own. -/
def arrayText (elements : List (List Char)) : List Char :=
  match elements with
  | [] => ['[', ']']
  | [e] => '[' :: e ++ [']']
  | es => '[' :: '\n' :: es.flatMap (fun e => "    ".toList ++ e ++ [',', '\n']) ++ [']']

mutual

/-- A value as it is written. -/
def valueText? : Data → Option (List Char)
  | .bool b => some (if b then "true".toList else "false".toList)
  | .integer n =>
    if n ≤ Int64.maxValue.toInt then some (Number.signedDigits n) else none
  | .string s => some (stringChars s.toList)
  | .array xs => (elementTexts? xs).map arrayText
  | _ => none

/-- The elements of an array as they are written. -/
def elementTexts? : List Data → Option (List (List Char))
  | [] => some []
  | d :: ds => do return (← valueText? d) :: (← elementTexts? ds)

end

/-! ### Tables -/

/-- The lines of the values of a table. -/
def valueLines? : List (String × Data) → Option (List Char)
  | [] => some []
  | (key, d) :: entries =>
    if isInline d then do
      let value ← valueText? d
      let rest ← valueLines? entries
      return keyChars key.toList ++ " = ".toList ++ value ++ '\n' :: rest
    else valueLines? entries

/-- The header of the table at a path. -/
def headerLine (path : List String) : List Char :=
  '\n' :: '[' :: List.intercalate ['.'] (path.map fun key => keyChars key.toList) ++ [']', '\n']

mutual

/-- The lines of the table under a key, with its header, and of the tables in it. -/
def tableLines? (path : List String) (key : String) : Data → Option (List Char)
  | .table entries => do
    let values ← valueLines? entries
    let tables ← innerTables? (path ++ [key]) entries
    return headerLine (path ++ [key]) ++ values ++ tables
  | _ => some []

/-- The lines of the tables in a table. -/
def innerTables? (path : List String) : List (String × Data) → Option (List Char)
  | [] => some []
  | (key, d) :: entries => do
    let table ← tableLines? path key d
    return table ++ (← innerTables? path entries)

end

/-- The document that holds the entries. -/
def write? (entries : List (String × Data)) : Option String := do
  let values ← valueLines? entries
  let tables ← innerTables? [] entries
  return String.ofList (values ++ tables)

end SearchQuery.Toml
