import SearchQuery.Pass.Fields
import SearchQuery.Pass.Sorting

/-!
# Warnings about settings

Settings can be contradictory without being wrong. Only the passes that run are looked at.

Warnings come in a fixed order, by section and then by name. An alias is compared with the valid
names as they are, and without valid names there is one warning instead of one for every alias.

## Main definitions

* `SettingsWarning` — what can be contradictory
* `Settings.warnings` — the warnings about settings
-/

namespace SearchQuery

/-- What can be contradictory in settings. -/
inductive SettingsWarning where
  /-- An alias stands for a name that may not be used. -/
  | aliasTargetNotValid (sectionName name target : String)
  /-- No field may be searched. -/
  | noValidFields
  /-- A field is listed as valid and as invalid. -/
  | fieldValidAndInvalid (field : String)
  /-- No field can be sorted by. -/
  | noSortableFields
  /-- There are no words to correct to. -/
  | emptyDictionary
  deriving DecidableEq, Repr

/-- The message of a warning. -/
def SettingsWarning.message : SettingsWarning → String
  | aliasTargetNotValid sectionName name target =>
    "[" ++ sectionName ++ "] alias '" ++ name ++ "' points to '" ++ target ++
      "', which is not a valid field"
  | noValidFields => "no valid fields are defined; every field search will be rejected"
  | fieldValidAndInvalid field => "field '" ++ field ++ "' is listed as both valid and invalid"
  | noSortableFields => "order_by is enabled but no sortable fields are defined"
  | emptyDictionary => "spellcheck is enabled but the dictionary is empty"

/-- The warnings about aliases of a section, if any name is valid there. -/
def aliasWarnings (sectionName : String) (valid : NameSet) (aliases : NameTable String) :
    List SettingsWarning :=
  if valid.isEmpty then []
  else (aliases.filter fun entry => !valid.contains entry.2).map fun (name, target) =>
    .aliasTargetNotValid sectionName name target

/-- The warnings about fields. -/
def FieldSettings.warnings (s : FieldSettings) : List SettingsWarning :=
  (if s.valid.isEmpty then [.noValidFields] else []) ++
    (s.valid.filter s.invalid.contains).map .fieldValidAndInvalid ++
    aliasWarnings "fields" s.valid s.aliases

/-- The warnings about sort directives. -/
def SortSettings.warnings (s : SortSettings) : List SettingsWarning :=
  (if s.valid.isEmpty then [.noSortableFields] else []) ++
    aliasWarnings "order_by" s.valid s.aliases

/-- The warnings about the correction of words. -/
def SpellingSettings.warnings (s : SpellingSettings) : List SettingsWarning :=
  if s.dictionary.isEmpty then [.emptyDictionary] else []

/-- The warnings about settings. -/
def Settings.warnings (s : Settings) : List SettingsWarning :=
  let whenRun (stage : TreeStage) (warnings : List SettingsWarning) :=
    if s.stages.tree.contains stage then warnings else []
  whenRun .fields s.fields.warnings ++ whenRun .sorting s.sorting.warnings ++
    whenRun .spelling s.spelling.warnings

end SearchQuery
