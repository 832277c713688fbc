import SearchQuery.Text.Blank
import SearchQuery.Text.Case
import SearchQuery.Text.Brackets

/-!
# Preparing the text of a query

A query text passes through a list of stages before it is read. Each stage is a function of the text
alone and has an answer for every text, so preparing a query never fails. Stages do not know of
tokens: they change a text inside of quotes as much as outside.

The places of tokens and of errors are those in the prepared text, which is why a processor reports
that text along with an error.

## Main definitions

* `TextStage` — the stages
* `TextStage.apply` — what a stage makes of a text
* `prepare` — a text after a list of stages
-/

namespace SearchQuery

open Text

/-- A change to the text of a query. -/
inductive TextStage where
  /-- Strips characters that render as nothing. -/
  | clean
  /-- Lowercases the text. -/
  | lower
  /-- Collapses runs of blanks to one space and strips the ends. -/
  | despace
  /-- Drops brackets without a counterpart. -/
  | unmatchedParentheses
  deriving DecidableEq, Repr

namespace Text

/-- The soft hyphen, the zero-width characters, the invisible operators and the byte order mark. -/
def zeroWidthRanges : List (Nat × Nat) :=
  [(0x00AD, 0x00AD), (0x200B, 0x200F), (0x2060, 0x2064), (0xFEFF, 0xFEFF)]

/-- Whether `c` renders as nothing. -/
def isInvisible (c : Char) : Bool :=
  inRanges zeroWidthRanges c || (isControl c && !isBlank c)

/-- The text without the characters that render as nothing. -/
def clean (s : String) : String := String.ofList (s.toList.filter fun c => !isInvisible c)

/-- The words of the text with one space between them. -/
def despace (s : String) : String := String.ofList (joinWith [' '] (words s.toList))

end Text

/-- What the stage makes of a text. -/
def TextStage.apply : TextStage → String → String
  | clean => Text.clean
  | lower => Text.lower
  | despace => Text.despace
  | unmatchedParentheses => Text.removeUnmatched

/-- The name of a stage in settings. -/
def TextStage.name : TextStage → String
  | clean => "clean"
  | lower => "lower"
  | despace => "despace"
  | unmatchedParentheses => "unmatched_parentheses"

/-- All stages. -/
def TextStage.all : List TextStage := [clean, lower, despace, unmatchedParentheses]

/-- The stage of this name. -/
def TextStage.ofName? (name : String) : Option TextStage := TextStage.all.find? (·.name == name)

/-- The text after the stages, in order. -/
def prepare (stages : List TextStage) (s : String) : String :=
  stages.foldl (fun text stage => stage.apply text) s

end SearchQuery
