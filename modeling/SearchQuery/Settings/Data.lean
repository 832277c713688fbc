import SearchQuery.Settings.Load
import SearchQuery.Toml.Writer

/-!
# Writing settings

Settings are written with everything that was left out or loaded from other files, so that what is
written needs nothing else. Names of files are not written, and neither is the directory that the
settings came from.

Sections and keys have a fixed order. Scores are written as texts, which keeps their places, and
settings that are absent are written as nothing, which a settings file leaves out. Writing a
settings file fails only if a count in the dictionary is beyond 63 bits, since the format has no
greater numbers.

## Main definitions

* `Settings.entries`, `Settings.toData` — settings as structured data
* `Settings.toToml` — settings as a settings file
-/

namespace SearchQuery

namespace Settings

/-- A text, or nothing. -/
def textOrNull (s : Option String) : Data := (s.map Data.string).getD .null

/-- A list of texts. -/
def texts (names : List String) : Data := .array (names.map .string)

/-- Texts under names. -/
def textTable (table : NameTable String) : Data :=
  .table (table.map fun (name, target) => (name, .string target))

/-- Settings by section. -/
def entries (s : Settings) : List (String × Data) :=
  [("language", textOrNull s.language),
   ("blank", .string s.blank.name),
   ("fields", .table [
     ("valid", texts s.fields.valid),
     ("invalid", texts s.fields.invalid),
     ("strict", .bool s.fields.strict),
     ("aliases", textTable s.fields.aliases)]),
   ("order_by", .table [
     ("field", .string s.sorting.field),
     ("valid", texts s.sorting.valid),
     ("direction", .string s.sorting.direction.name),
     ("aliases", textTable s.sorting.aliases)]),
   ("morphology", .table [
     ("enabled", .bool s.inflection.enabled),
     ("accent", .bool s.inflection.accent),
     ("score", .string s.inflection.score.text),
     ("decreasing", .bool s.inflection.decreasing)]),
   ("synonyms", .table [
     ("sets", .array (s.synonyms.sets.map texts))]),
   ("spellcheck", .table [
     ("languages", texts s.spelling.languages),
     ("dictionary", .table (s.spelling.dictionary.map fun (word, count) =>
       (word, .integer count)))]),
   ("doi", .table [
     ("score", .string s.identifiers.score.text),
     ("field", .string s.identifiers.field),
     ("wildcard", .bool s.identifiers.wildcard)]),
   ("markers", .table [
     ("forced_clean", texts s.markers.forcedClean)]),
   ("exact_match", .table [
     ("field", textOrNull s.exactPhrase.field),
     ("score", textOrNull (s.exactPhrase.score.map Decimal.text)),
     ("slop", .integer s.exactPhrase.slop.toNat)]),
   ("pipeline", .table [
     ("text", texts (s.stages.text.map TextStage.name)),
     ("tree", texts (s.stages.tree.map TreeStage.name))])]

/-- Settings as structured data. -/
def toData (s : Settings) : Data := .table s.entries

/-- Settings as a settings file. -/
def toToml (s : Settings) : Except SettingsError String :=
  match Toml.write? s.entries with
  | some text => .ok text
  | none => .error .unwritable

end Settings

end SearchQuery
