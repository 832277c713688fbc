import SearchQuery.NameTable
import SearchQuery.SynonymSets
import SearchQuery.Decimal.Text
import SearchQuery.Text.Stage

/-!
# Settings

What the passes of a query are told: which fields there are, which words are markers, how forms
are weighted, and which passes run in which order.

Each pass has its own settings, with a default for everything, and gets no others. Names of fields,
aliases and markers are sets and tables in ascending order, so that two ways to list them are the
same settings. The languages whose words are corrected are a list, and so are the stages, since the
order of the stages counts.

The default stages run in the order in which they are declared. Directives, fields and markers come
first, while the tree is still as it was typed; then words are expanded; the shape for the search
engine and the removal of what has no effect come last.

The names of stages, policies and directions are those of settings files.

## Main definitions

* `TreeStage` — the passes over the tree
* `Settings` — all settings, with their defaults
-/

namespace SearchQuery

/-- A pass over the tree of a query. -/
inductive TreeStage where
  /-- Takes sort directives out of the query. -/
  | sorting
  /-- Resolves field names and rejects unknown ones. -/
  | fields
  /-- Takes marker words out of the query. -/
  | markers
  /-- Searches for identifiers in their field. -/
  | identifiers
  /-- Pairs misspelled words with their corrections. -/
  | spelling
  /-- Replaces terms by their synonym sets. -/
  | synonyms
  /-- Adds the other forms of words. -/
  | inflection
  /-- Adds the phrase that a group of words spells. -/
  | exactPhrase
  /-- Brings the tree into the shape that the search engine takes. -/
  | backendShape
  /-- Removes what has no effect. -/
  | simplification
  deriving DecidableEq, Repr

namespace TreeStage

/-- The name of a pass in settings. -/
def name : TreeStage → String
  | sorting => "order_by"
  | fields => "field"
  | markers => "markers"
  | identifiers => "doi"
  | spelling => "spellcheck"
  | synonyms => "synonyms"
  | inflection => "morphology"
  | exactPhrase => "exact_match"
  | backendShape => "tantivy"
  | simplification => "optimizing"

/-- All passes, in the order in which they usually run. -/
def all : List TreeStage :=
  [sorting, fields, markers, identifiers, spelling, synonyms, inflection, exactPhrase,
    backendShape, simplification]

/-- The pass of this name. -/
def ofName? (name : String) : Option TreeStage := all.find? (·.name == name)

end TreeStage

/-- What a query without a tree matches. -/
inductive BlankPolicy where
  /-- Everything. -/
  | all
  /-- Nothing. -/
  | empty
  deriving DecidableEq, Repr, Inhabited

/-- The name of a policy in settings. -/
def BlankPolicy.name : BlankPolicy → String
  | all => "all"
  | empty => "empty"

/-- The policy of this name. -/
def BlankPolicy.ofName? (name : String) : Option BlankPolicy :=
  [all, empty].find? (·.name == name)

/-- The direction of a sort. -/
inductive SortDirection where
  /-- Ascending. -/
  | ascending
  /-- Descending. -/
  | descending
  deriving DecidableEq, Repr, Inhabited

/-- The name of a direction in settings. -/
def SortDirection.name : SortDirection → String
  | ascending => "asc"
  | descending => "desc"

/-- The direction of this name. -/
def SortDirection.ofName? (name : String) : Option SortDirection :=
  [ascending, descending].find? (·.name == name)

/-- Which fields may be searched. -/
structure FieldSettings where
  /-- The fields that may be searched. -/
  valid : NameSet := []
  /-- The fields that may not, even if they are listed as valid. -/
  invalid : NameSet := []
  /-- Whether a search in another field is dropped instead of read as plain words. -/
  strict : Bool := false
  /-- Other names of fields. -/
  aliases : NameTable String := []

/-- How sort directives are written. -/
structure SortSettings where
  /-- The name that stands where a field would. -/
  field : String := "order_by"
  /-- The fields that can be sorted by. -/
  valid : NameSet := []
  /-- The direction of every sort. -/
  direction : SortDirection := .descending
  /-- Other names of fields. -/
  aliases : NameTable String := []

/-- The weight of a derived form where the settings give none. -/
def usualInflectionScore : Decimal := ⟨false, 65, 2, by decide, by decide⟩

/-- How other forms of words are added. -/
structure InflectionSettings where
  /-- Whether forms are derived. -/
  enabled : Bool := true
  /-- Whether the form without the accented letter is added. -/
  accent : Bool := true
  /-- The weight of a derived form. -/
  score : Decimal := usualInflectionScore
  /-- Whether the derived forms of a word share the weight one instead. -/
  decreasing : Bool := false

/-- How words are corrected. -/
structure SpellingSettings where
  /-- The languages in which words are corrected. -/
  languages : List String := ["en"]
  /-- How often each known word occurs. -/
  dictionary : NameTable Nat := []

/-- How identifiers are searched for. -/
structure IdentifierSettings where
  /-- The weight of the search. -/
  score : Decimal := .one
  /-- The field of identifiers. -/
  field : String := "doi"
  /-- Whether a beginning with an asterisk is searched for too. -/
  wildcard : Bool := true

/-- Which words are markers. -/
structure MarkerSettings where
  /-- The words that ask for results as they are. -/
  forcedClean : NameSet := []

/-- How the phrase that a group of words spells is searched for. -/
structure ExactPhraseSettings where
  /-- The field to search in, if not the usual ones. -/
  field : Option String := none
  /-- The weight of the search, if not the number of words. -/
  score : Option Decimal := none
  /-- The distance between the words. -/
  slop : UInt32 := 1

/-- Which passes run. -/
structure StageSettings where
  /-- The passes over the text. -/
  text : List TextStage := [.clean, .lower, .despace, .unmatchedParentheses]
  /-- The passes over the tree. -/
  tree : List TreeStage := TreeStage.all

/-- All settings. -/
structure Settings where
  /-- The language of a query about whose language nothing is known. -/
  language : Option String := none
  /-- What a query without a tree matches. -/
  blank : BlankPolicy := .all
  /-- Which fields may be searched. -/
  fields : FieldSettings := {}
  /-- How sort directives are written. -/
  sorting : SortSettings := {}
  /-- How other forms of words are added. -/
  inflection : InflectionSettings := {}
  /-- Which terms are interchangeable. -/
  synonyms : SynonymSets := .empty
  /-- How words are corrected. -/
  spelling : SpellingSettings := {}
  /-- How identifiers are searched for. -/
  identifiers : IdentifierSettings := {}
  /-- Which words are markers. -/
  markers : MarkerSettings := {}
  /-- How the phrase that a group of words spells is searched for. -/
  exactPhrase : ExactPhraseSettings := {}
  /-- Which passes run. -/
  stages : StageSettings := {}
  /-- The directory of the settings file, if there is one. -/
  root : Option String := none

instance : Inhabited Settings := ⟨{}⟩

end SearchQuery
