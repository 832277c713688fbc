import SearchQuery.Expr.Basic
import SearchQuery.Text.Quoted

/-!
# Query trees as text

A tree is written in two ways: as the text of a query, which the reader understands, and as an
outline with one node on a line.

The text is what a user could have typed. Values of terms are written as they are held, with their
escapes, and only the slashes of regular expressions are escaped again, since reading takes those
backslashes away. Alternatives are written like groups, since the grammar has no form for them, and
what is read back from them is a group.

The outline is for people who look at a tree. It quotes what terms hold, and it tells alternatives
and groups apart. Both forms write normalized numbers, so they are the same for trees that are the
same query.

## Main definitions

* `Expr.chars`, `Expr.text` — the text of a query
* `Expr.outlineEntries`, `Expr.outline` — the nodes with their depths, and one line for each
-/

namespace SearchQuery.Expr

/-! ### The text of a query -/

/-- The regular expression with a backslash before each slash. -/
def escapeSlashes (cs : List Char) : List Char :=
  cs.flatMap fun c => if c = '/' then ['\\', '/'] else [c]

mutual

/-- The text of the query. -/
def chars : Expr → List Char
  | word v | doi v | url v => v.toList
  | phrase v => '"' :: v.toList ++ ['"']
  | regex v => '/' :: escapeSlashes v.toList ++ ['/']
  | field name body => name.toList ++ ':' :: chars body
  | group operands => '(' :: charsOfAll operands ++ [')']
  | synonyms alternatives => '(' :: charsOfAll alternatives ++ [')']
  | range left right il ir =>
    (if il then '[' else '\x7b') :: chars left ++ " TO ".toList ++ chars right ++
      [if ir then ']' else '\x7d']
  | boost body score => chars body ++ '^' :: score.normalize.chars
  | fuzzy term slop => chars term ++ '~' :: slop.normalize.chars
  | proximity term slop => chars term ++ '~' :: Number.digits slop.toNat
  | plus inner => '+' :: chars inner
  | minus inner => '-' :: chars inner

/-- The texts of the queries with a space between neighbours. -/
def charsOfAll : List Expr → List Char
  | [] => []
  | [e] => chars e
  | e :: es => chars e ++ ' ' :: charsOfAll es

end

/-- The text of the query. -/
def text (e : Expr) : String := String.ofList e.chars

/-! ### Outlines -/

/-- How an outline writes a truth value. -/
def boolText (b : Bool) : String := if b then "true" else "false"

/-- What an outline says about a node, its children apart. -/
def label : Expr → String
  | word v => "Word(" ++ Text.quote v ++ ")"
  | phrase v => "Phrase(" ++ Text.quote v ++ ")"
  | regex v => "Regex(" ++ Text.quote v ++ ")"
  | doi v => "Doi(" ++ Text.quote v ++ ")"
  | url v => "Url(" ++ Text.quote v ++ ")"
  | field name _ => "SearchField(" ++ Text.quote name ++ ")"
  | group _ => "Group"
  | synonyms _ => "SynonymsGroup"
  | range _ _ il ir => "Range(" ++ boolText il ++ ", " ++ boolText ir ++ ")"
  | boost _ score => "Boost(" ++ score.normalize.text ++ ")"
  | fuzzy _ slop => "Fuzzy(" ++ slop.normalize.text ++ ")"
  | proximity _ slop => "Proximity(" ++ Number.numeral slop.toNat ++ ")"
  | plus _ => "Plus"
  | minus _ => "Minus"

mutual

/-- The nodes of the tree, parents first, each with its depth and its label. -/
def outlineEntries (depth : Nat) : Expr → List (Nat × String)
  | field name body => (depth, label (field name body)) :: outlineEntries (depth + 1) body
  | group operands => (depth, label (group operands)) :: outlineEntriesOfAll (depth + 1) operands
  | synonyms alternatives =>
    (depth, label (synonyms alternatives)) :: outlineEntriesOfAll (depth + 1) alternatives
  | range left right il ir =>
    (depth, label (range left right il ir)) ::
      (outlineEntries (depth + 1) left ++ outlineEntries (depth + 1) right)
  | boost body score => (depth, label (boost body score)) :: outlineEntries (depth + 1) body
  | fuzzy term slop => (depth, label (fuzzy term slop)) :: outlineEntries (depth + 1) term
  | proximity term slop => (depth, label (proximity term slop)) :: outlineEntries (depth + 1) term
  | plus inner => (depth, label (plus inner)) :: outlineEntries (depth + 1) inner
  | minus inner => (depth, label (minus inner)) :: outlineEntries (depth + 1) inner
  | leaf => [(depth, label leaf)]

/-- The nodes of the trees, one tree after the other. -/
def outlineEntriesOfAll (depth : Nat) : List Expr → List (Nat × String)
  | [] => []
  | e :: es => outlineEntries depth e ++ outlineEntriesOfAll depth es

end

/-- A line of an outline: two spaces for every level, then the label. -/
def outlineLine (entry : Nat × String) : List Char :=
  List.replicate (2 * entry.1) ' ' ++ entry.2.toList ++ ['\n']

/-- The outline of the tree, one node on a line. -/
def outline (e : Expr) : String := String.ofList ((e.outlineEntries 0).flatMap outlineLine)

end SearchQuery.Expr
