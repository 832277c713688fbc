import SearchQuery.Diagnostic
import SearchQuery.Document.Compile
import SearchQuery.Expr.Visits
import SearchQuery.Language.Script
import SearchQuery.Pass.Stage

/-!
# Processing queries

The text of a query is prepared and read, and the passes run over its tree until nothing is left of
it. What is left is compiled; if nothing is left, the context says what the query matches.

## The language

The language of a query is what its script tells, else the one that the caller names, else the usual
one. It is settled before the passes run, since two of them depend on it. Of weighted candidates the
heaviest counts as named, the last one of equally heavy ones.

## Errors

Processing fails only if the prepared text is no query. Compiling may fail as well, but a tree that
was processed is at hand then, and what is known about the query can still be asked for.

## Inspections

What a query asks for is read off the tree after the passes, with exclusions left out. It is
exploratory if it names no identifier and nothing in it points at particular documents.

## Main definitions

* `Processor` — what is done with a query
* `Processor.ofSettings` — what settings ask for
* `Processor.process` — a query processed
* `Processed` — a tree with what is known about the query
* `Processed.document`, `Processed.isExplorationQuery`, `Processed.positiveTerms` — what the query
  compiles to, whether it looks like browsing, and what it asks for
-/

namespace SearchQuery

/-- Why a query cannot be used. -/
inductive ProcessError where
  /-- The prepared text is no query. -/
  | unreadable (query : String) (err : SyntaxError)
  /-- The tree has no document. -/
  | unsupported (err : Unsupported)
  deriving DecidableEq, Repr

namespace ProcessError

/-- The message about a query that cannot be used. -/
def message : ProcessError → String
  | unreadable query err => "failed to parse query '" ++ query ++ "': " ++ err.message
  | unsupported err => "failed to compile query: " ++ err.message

/-- The diagnostic of a query that cannot be read, with the prepared text. -/
def diagnostic? : ProcessError → Option Diagnostic
  | unreadable query err => some (.ofSyntaxError err (some query))
  | unsupported _ => none

/-- The hint for a common mistake in the text of a query. -/
def suggestion? (e : ProcessError) : Option String := e.diagnostic?.bind (·.suggestion?)

end ProcessError

/-- What is done with a query. -/
structure Processor where
  /-- The passes over the text. -/
  text : List TextStage := []
  /-- The passes over the tree. -/
  passes : List (Pass Context) := []
  /-- What tells the language of a text. -/
  detect? : String → Option String := fun _ => none
  /-- The language of a query about whose language nothing is known. -/
  defaultLanguage : Option String := none
  /-- What a query without a tree matches. -/
  blank : BlankPolicy := .all

/-- A tree with what is known about the query. -/
structure Processed where
  /-- The tree, if anything is left of it. -/
  tree : Option Expr
  /-- What is known about the query. -/
  context : Context

/-- The passes over a tree, in order, as long as anything is left of it. -/
def runPasses : List (Pass Context) → Option Expr → Context → Option Expr × Context
  | [], tree?, c => (tree?, c)
  | _ :: _, none, c => (none, c)
  | p :: ps, some e, c =>
    let (tree?, c) := p.run e c
    runPasses ps tree? c

namespace Processor

/-- What settings ask for, with the given engines. -/
def ofSettingsWith (s : Settings) (engines : Engines) : Processor where
  text := s.stages.text
  passes := s.passes engines
  detect? := Language.detect? Language.usualShare
  defaultLanguage := s.language
  blank := s.blank

/-- What settings ask for. -/
def ofSettings (s : Settings) : Processor := ofSettingsWith s (.ofSettings s)

/-- The language that the caller names, or the usual one. -/
def fallbackLanguage (p : Processor) (hint : Option String) : Option String :=
  hint.map Text.lower <|> p.defaultLanguage

/-- The context of a query before anything is known about it. -/
def freshContext (p : Processor) (languages : List (String × Number.Floating)) : Context :=
  { languages, blank := p.blank }

/-- A query with a text, processed. -/
def processText (p : Processor) (query : String) (hint : Option String)
    (languages : List (String × Number.Floating)) : Except ProcessError Processed :=
  let text := prepare p.text query
  match parse text with
  | .error err => .error (.unreadable text err)
  | .ok tree? =>
    let language := p.detect? text <|> p.fallbackLanguage hint
    let (tree?, context) :=
      runPasses p.passes tree? { p.freshContext languages with language }
    .ok ⟨tree?, context⟩

/-- A query processed, with the language that the caller names. A missing or empty query has no
tree. -/
def processWith (p : Processor) (query : Option String) (hint : Option String)
    (languages : List (String × Number.Floating)) : Except ProcessError Processed :=
  match query.filter (· != "") with
  | some query => p.processText query hint languages
  | none => .ok ⟨none, { p.freshContext languages with language := p.fallbackLanguage hint }⟩

/-- A query processed, with the language that the caller names. -/
def process (p : Processor) (query : Option String) (hint : Option String) :
    Except ProcessError Processed :=
  p.processWith query hint []

/-- The heavier of two candidates, the second one if they weigh the same. -/
def heavier (best? : Option (String × Number.Floating)) (candidate : String × Number.Floating) :
    Option (String × Number.Floating) :=
  match best? with
  | some best =>
    if candidate.2.rank Number.binary32 < best.2.rank Number.binary32 then some best
    else some candidate
  | none => some candidate

/-- A query processed, with weighted candidates for its language, of which the heaviest counts as
named by the caller. -/
def processWeighted (p : Processor) (query : Option String)
    (languages : List (String × Number.Floating)) : Except ProcessError Processed :=
  p.processWith query ((languages.foldl heavier none).map (·.1)) languages

end Processor

namespace Processed

/-- Whether there is nothing to search for. -/
def isEmpty (p : Processed) : Bool := p.tree.isNone

/-- What the query compiles to. -/
def document (p : Processed) : Except Unsupported Document :=
  match p.tree with
  | some e => e.compile
  | none => .ok p.context.blankQuery

/-- Whether nodes of the kind point at particular documents. -/
def isLookup (kind : Kind) : Bool :=
  kind == .field || kind == .range || kind == .regex || kind == .doi || kind == .url

/-- The nodes of a tree that are not excluded. -/
def wantedNodes (e : Expr) : List Expr := (e.visits (· == .minus)).map (·.1)

/-- Whether the query looks like browsing: it has a tree, names no identifier, and what it asks
for points at no particular documents. -/
def isExplorationQuery (p : Processed) : Bool :=
  match p.tree with
  | some e => p.context.dois.isEmpty && !(wantedNodes e).any fun n => isLookup n.kind
  | none => false

/-- The text of a word or phrase, without the backslashes of literal characters. -/
def termText? : Expr → Option String
  | .word value | .phrase value => some (unescape value)
  | _ => none

/-- The words and phrases that the query asks for. -/
def positiveTerms (p : Processed) : List String :=
  match p.tree with
  | some e => (wantedNodes e).filterMap termText?
  | none => []

end Processed

end SearchQuery
