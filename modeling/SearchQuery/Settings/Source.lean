import SearchQuery.Settings.Basic
import SearchQuery.Data
import SearchQuery.Text.Case

/-!
# What a settings file says

Every setting may be absent, and what nobody asks for is ignored. Scores are kept as they are
written, and lists of synonyms and words may be in files of their own, so what a settings file says
is not yet the settings. Checking the scores and reading the files comes later, and only there can
anything fail that is not a matter of form.

## Forms

A section is a table, or an array with the values of its keys in order. A value that is absent takes
its default, and so does nothing, where the format has it. A list of files may be a single one. The
names of the fields to search in and to sort by are put in lowercase as they are read, and of
aliases that become equal by that the last one in the order of their names counts.

A score may be a number or a text. Numbers are written down as texts at once, so that both ways are
read by the same reader afterwards.

## Main definitions

* `SettingsSource` — what a settings file says
* `SettingsSource.ofData?` — what a value says, unless something in it has the wrong form
* `SettingsSource.scoreText?` — a score as it is written
-/

namespace SearchQuery

/-- What a settings file says. -/
structure SettingsSource where
  /-- The settings without what follows. -/
  settings : Settings := {}
  /-- The weight of a derived form, as written. -/
  inflectionScore : Option String := none
  /-- The weight of the search for an identifier, as written. -/
  identifierScore : Option String := none
  /-- The weight of the search for an exact phrase, as written. -/
  exactPhraseScore : Option String := none
  /-- The synonym sets. -/
  synonymLists : List (List String) := []
  /-- The files with more synonym sets. -/
  synonymFiles : List String := []
  /-- The files with more words of the dictionary. -/
  wordFiles : List String := []

namespace SettingsSource

/-! ### Sections -/

/-- The values under keys. -/
abbrev Entries := List (String × Data)

/-- The values of a section under their keys. A section may also list the values of its first keys;
in TOML, what it lists after the last key is ignored. -/
def sectionEntries? (format : DataFormat) (keys : List String) : Data → Option Entries
  | .table entries => some entries
  | .array xs =>
    if format = .toml || xs.length ≤ keys.length then some (keys.zip xs) else none
  | _ => none

/-- The value under a key, read. It may be absent. -/
def optional? {α : Type} (read? : Data → Option α) (key : String) (entries : Entries) :
    Option (Option α) :=
  match entries.lookup key with
  | none => some none
  | some .null => some none
  | some d => (read? d).map some

/-- The value under a key, read, or the default if it is absent. -/
def valueOr? {α : Type} (default : α) (read? : Data → Option α) (key : String)
    (entries : Entries) : Option α :=
  (optional? read? key entries).map (·.getD default)

/-! ### Values -/

/-- A list of texts. -/
def texts? : Data → Option (List String) := Data.arrayOf? Data.string?

/-- A list of texts, or one text by itself. -/
def textOrTexts? : Data → Option (List String)
  | .string s => some [s]
  | d => texts? d

/-- A set of names in lowercase. -/
def names? (d : Data) : Option NameSet :=
  (texts? d).map fun names => .ofList (names.map Text.lower)

/-- Other names for names, all in lowercase. Of names with the same lowercase the last one in the
order of names counts. -/
def aliases? (d : Data) : Option (NameTable String) :=
  (Data.tableOf? Data.string? d).map fun entries =>
    .ofList ((NameTable.ofList entries).map fun (name, target) =>
      (Text.lower name, Text.lower target))

/-- A score as it is written: a number, or a text without the blanks at its ends. Whole numbers
from 2⁶³ to below 2⁶⁴ are written like floating-point numbers. -/
def scoreText? : Data → Option String
  | .integer n =>
    if Int64.minValue.toInt ≤ n && n ≤ Int64.maxValue.toInt then
      some (String.ofList (Number.signedDigits n))
    else if 0 ≤ n && n < UInt64.size then
      some (Number.binary64.text (Number.binary64.ofDecimal false n.natAbs 0))
    else none
  | .float x => some (Number.binary64.text x)
  | .string s => some (Text.trimmed s)
  | _ => none

/-! ### The sections -/

/-- Which fields may be searched. -/
def fields? (format : DataFormat) (d : Data) : Option FieldSettings := do
  let entries ← sectionEntries? format ["valid", "invalid", "aliases", "strict"] d
  return {
    valid := ← valueOr? [] names? "valid" entries
    invalid := ← valueOr? [] names? "invalid" entries
    strict := ← valueOr? false Data.bool? "strict" entries
    aliases := ← valueOr? [] aliases? "aliases" entries }

/-- How sort directives are written. -/
def sorting? (format : DataFormat) (d : Data) : Option SortSettings := do
  let usual : SortSettings := {}
  let entries ← sectionEntries? format ["field", "valid", "aliases", "direction"] d
  return {
    field := ← valueOr? usual.field (fun d => d.string?.map Text.lower) "field" entries
    valid := ← valueOr? [] names? "valid" entries
    direction :=
      ← valueOr? usual.direction (Data.named? format SortDirection.ofName?) "direction" entries
    aliases := ← valueOr? [] aliases? "aliases" entries }

/-- How other forms of words are added, and the score as it is written. -/
def inflection? (format : DataFormat) (d : Data) :
    Option (InflectionSettings × Option String) := do
  let usual : InflectionSettings := {}
  let entries ← sectionEntries? format ["enabled", "accent", "score", "decreasing"] d
  let settings : InflectionSettings := {
    enabled := ← valueOr? usual.enabled Data.bool? "enabled" entries
    accent := ← valueOr? usual.accent Data.bool? "accent" entries
    decreasing := ← valueOr? usual.decreasing Data.bool? "decreasing" entries }
  return (settings, ← optional? scoreText? "score" entries)

/-- The synonym sets, and the files with more. -/
def synonyms? (format : DataFormat) (d : Data) : Option (List (List String) × List String) := do
  let entries ← sectionEntries? format ["sets", "files"] d
  return (← valueOr? [] (Data.arrayOf? texts?) "sets" entries,
    ← valueOr? [] textOrTexts? "files" entries)

/-- How words are corrected, and the files with more words. -/
def spelling? (format : DataFormat) (d : Data) : Option (SpellingSettings × List String) := do
  let usual : SpellingSettings := {}
  let entries ← sectionEntries? format ["languages", "dictionary", "files"] d
  let settings : SpellingSettings := {
    languages := ← valueOr? usual.languages
      (fun d => (texts? d).map (·.map Text.lower)) "languages" entries
    dictionary := ← valueOr? []
      (fun d => (Data.tableOf? (Data.natBelow? UInt64.size) d).map NameTable.ofList)
      "dictionary" entries }
  return (settings, ← valueOr? [] textOrTexts? "files" entries)

/-- How identifiers are searched for, and the score as it is written. -/
def identifiers? (format : DataFormat) (d : Data) :
    Option (IdentifierSettings × Option String) := do
  let usual : IdentifierSettings := {}
  let entries ← sectionEntries? format ["score", "field", "wildcard"] d
  let settings : IdentifierSettings := {
    field := ← valueOr? usual.field Data.string? "field" entries
    wildcard := ← valueOr? usual.wildcard Data.bool? "wildcard" entries }
  return (settings, ← optional? scoreText? "score" entries)

/-- Which words are markers. -/
def markers? (format : DataFormat) (d : Data) : Option MarkerSettings := do
  let entries ← sectionEntries? format ["forced_clean"] d
  return { forcedClean := .ofList (← valueOr? [] textOrTexts? "forced_clean" entries) }

/-- How the phrase that a group of words spells is searched for, and the score as it is written. -/
def exactPhrase? (format : DataFormat) (d : Data) :
    Option (ExactPhraseSettings × Option String) := do
  let usual : ExactPhraseSettings := {}
  let entries ← sectionEntries? format ["field", "score", "slop"] d
  let settings : ExactPhraseSettings := {
    field := ← optional? Data.string? "field" entries
    slop := ← valueOr? usual.slop
      (fun d => (d.natBelow? UInt32.size).map Nat.toUInt32) "slop" entries }
  return (settings, ← optional? scoreText? "score" entries)

/-- Which passes run. -/
def stages? (format : DataFormat) (d : Data) : Option StageSettings := do
  let usual : StageSettings := {}
  let entries ← sectionEntries? format ["text", "tree"] d
  return {
    text := ← valueOr? usual.text
      (Data.arrayOf? (Data.named? format TextStage.ofName?)) "text" entries
    tree := ← valueOr? usual.tree
      (Data.arrayOf? (Data.named? format TreeStage.ofName?)) "tree" entries }

/-! ### Everything -/

/-- The keys of a settings file. -/
def keys : List String :=
  ["language", "blank", "fields", "order_by", "morphology", "synonyms", "spellcheck", "doi",
    "markers", "exact_match", "pipeline"]

/-- What a value says, unless something in it has the wrong form. -/
def ofData? (format : DataFormat) (d : Data) : Option SettingsSource := do
  let entries ← sectionEntries? format keys d
  let (inflection, inflectionScore) ←
    valueOr? ({}, none) (inflection? format) "morphology" entries
  let (synonymLists, synonymFiles) ← valueOr? ([], []) (synonyms? format) "synonyms" entries
  let (spelling, wordFiles) ← valueOr? ({}, []) (spelling? format) "spellcheck" entries
  let (identifiers, identifierScore) ← valueOr? ({}, none) (identifiers? format) "doi" entries
  let (exactPhrase, exactPhraseScore) ←
    valueOr? ({}, none) (exactPhrase? format) "exact_match" entries
  let settings : Settings := {
    language := ← optional? (fun d => d.string?.map Text.lower) "language" entries
    blank := ← valueOr? .all (Data.named? format BlankPolicy.ofName?) "blank" entries
    fields := ← valueOr? {} (fields? format) "fields" entries
    sorting := ← valueOr? {} (sorting? format) "order_by" entries
    inflection
    spelling
    identifiers
    markers := ← valueOr? {} (markers? format) "markers" entries
    exactPhrase
    stages := ← valueOr? {} (stages? format) "pipeline" entries }
  return {
    settings, inflectionScore, identifierScore, exactPhraseScore, synonymLists, synonymFiles,
    wordFiles }

end SettingsSource

end SearchQuery
