import SearchQuery.FileTree.Basic
import SearchQuery.Settings.Dictionary
import SearchQuery.Settings.Source
import SearchQuery.Toml.Reader

/-!
# Loading settings

The lists of synonyms and words that a settings file names are read, and the scores are checked.

## The first error

The first thing that is wrong decides the error: the synonym files in order, then the word files in
order, then the weight of derived forms, the synonym sets, the weight of identifiers and the weight
of exact phrases. A file is wrong in one of four ways, in this order: its path begins with a tilde
and there is no home directory, nothing is at the path, what is there has no text, or, for a word
list, some line is no entry.

## Paths

Paths in a settings file are seen from the directory of the file, and paths in a text or value from
the working directory. Errors about a file name it without detours once it was found, and as it was
looked for until then.

## Main definitions

* `SettingsError` — what can be wrong with settings
* `SettingsSource.resolve` — the settings that a settings file makes
* `Settings.load`, `Settings.ofToml`, `Settings.ofData` — settings from a file, a text and a value
-/

namespace SearchQuery

/-- What can be wrong with settings. -/
inductive SettingsError where
  /-- A file is missing or holds no text. -/
  | unreadableFile (path : String)
  /-- A settings file is malformed, or something in it has the wrong form. -/
  | malformedFile (path : String)
  /-- A value has the wrong form. -/
  | malformedData
  /-- A score is no number from zero. -/
  | invalidScore (key value : String)
  /-- Two synonym sets share a term. -/
  | overlappingSynonyms (overlap : SynonymOverlap)
  /-- A line of a word list is no entry. -/
  | invalidWordListLine (path : String) (line : Nat)
  /-- A path begins with a tilde, and there is no home directory. -/
  | noHomeDirectory
  /-- There is nothing at a path. -/
  | unresolvedPath (path : String)
  /-- A number is too large to be written. -/
  | unwritable
  deriving DecidableEq, Repr

/-- The message about what is wrong with settings. -/
def SettingsError.message : SettingsError → String
  | unreadableFile path => "failed to read config file " ++ path
  | malformedFile path => "failed to parse config file " ++ path
  | malformedData => "failed to parse config"
  | invalidScore key value => "invalid score for " ++ key ++ ": '" ++ value ++ "'"
  | overlappingSynonyms overlap => overlap.message
  | invalidWordListLine path line =>
    "invalid dictionary entry in " ++ path ++ " at line " ++ Number.numeral line
  | noHomeDirectory => "could not determine home directory"
  | unresolvedPath path => "failed to resolve path " ++ path
  | unwritable => "failed to serialize settings"

/-- A score: a decimal number from zero, without zeros at its end. -/
def Decimal.score? (text : String) : Option Decimal :=
  (Decimal.parse? text).bind fun d => if d.negative then none else some d.normalize

namespace SettingsSource

/-- The score that is written under a key, or the default if there is none. -/
def score (key : String) (written : Option String) (default : Option Decimal) :
    Except SettingsError (Option Decimal) :=
  match written with
  | none => .ok default
  | some text =>
    match Decimal.score? text with
    | some d => .ok (some d)
    | none => .error (.invalidScore key text)

/-- The absolute path of a file that settings name, and its text. -/
def dataFile (tree : FileTree) (directory : Option String) (path : String) :
    Except SettingsError (String × String) :=
  match tree.located directory path with
  | none => .error .noHomeDirectory
  | some located =>
    match tree.canonical? located with
    | none => .error (.unresolvedPath located)
    | some path =>
      match tree.text? path with
      | none => .error (.unreadableFile path)
      | some text => .ok (path, text)

/-- The synonym sets in a file. -/
def synonymFile (tree : FileTree) (directory : Option String) (path : String) :
    Except SettingsError (List (List String)) :=
  (dataFile tree directory path).map fun (_, text) => SynonymSets.parseList text

/-- The words in a file. -/
def wordFile (tree : FileTree) (directory : Option String) (path : String) :
    Except SettingsError (List (String × Nat)) :=
  (dataFile tree directory path).bind fun (path, text) =>
    (WordList.parse? text).mapError (.invalidWordListLine path)

/-- The settings that a settings file in a directory makes. -/
def resolve (source : SettingsSource) (tree : FileTree) (directory : Option String) :
    Except SettingsError Settings := do
  let settings := source.settings
  let lists ← source.synonymFiles.mapM (synonymFile tree directory)
  let words ← source.wordFiles.mapM (wordFile tree directory)
  let inflectionScore ←
    score "morphology.score" source.inflectionScore (some settings.inflection.score)
  let synonyms ← (SynonymSets.ofLists? (source.synonymLists ++ lists.flatten)).mapError
    SettingsError.overlappingSynonyms
  let identifierScore ←
    score "doi.score" source.identifierScore (some settings.identifiers.score)
  let exactPhraseScore ←
    score "exact_match.score" source.exactPhraseScore settings.exactPhrase.score
  return { settings with
    inflection.score := inflectionScore.getD settings.inflection.score
    synonyms
    spelling.dictionary := WordList.addTo settings.spelling.dictionary words.flatten
    identifiers.score := identifierScore.getD settings.identifiers.score
    exactPhrase.score := exactPhraseScore
    root := directory }

end SettingsSource

namespace SettingsSource

/-- What a settings file says whose text is known. The path is for the error. -/
def ofToml (text path : String) : Except SettingsError SettingsSource :=
  match (Toml.read? text).bind (ofData? .toml) with
  | some source => .ok source
  | none => .error (.malformedFile path)

end SettingsSource

namespace Settings

/-- The settings that a JSON value makes. Paths in it are seen from the working directory. -/
def ofData (d : Data) (tree : FileTree) : Except SettingsError Settings :=
  match SettingsSource.ofData? .json d with
  | some source => source.resolve tree none
  | none => .error .malformedData

/-- The settings that the text of a settings file makes. Paths in it are seen from the working
directory. -/
def ofToml (text : String) (tree : FileTree) : Except SettingsError Settings :=
  (SettingsSource.ofToml text "<string>").bind fun source => source.resolve tree none

/-- The settings that a settings file makes. Paths in it are seen from the directory of the
file. -/
def load (path : String) (tree : FileTree) : Except SettingsError Settings := do
  let some text := tree.text? path | throw (.unreadableFile path)
  let source ← SettingsSource.ofToml text path
  let directory := Path.parent path
  source.resolve tree (some (if directory = "" then "." else directory))

end Settings

end SearchQuery
