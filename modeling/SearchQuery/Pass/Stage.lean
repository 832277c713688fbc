import SearchQuery.Language.English
import SearchQuery.Language.Speller
import SearchQuery.Pass.Sorting
import SearchQuery.Pass.Fields
import SearchQuery.Pass.Markers
import SearchQuery.Pass.Identifiers
import SearchQuery.Pass.Spelling
import SearchQuery.Pass.Synonyms
import SearchQuery.Pass.Inflection
import SearchQuery.Pass.ExactPhrase
import SearchQuery.Pass.BackendShape
import SearchQuery.Pass.Simplification

/-!
# The passes that settings ask for

A stage is a name for a pass, and settings list stages in the order in which they run. Any list is
allowed, with repetitions. The stage that corrects words is the only one that may have no pass: it
has one only if there is a dictionary.

Engines are kept apart from the settings, so that what derives forms and what corrects words can be
anything. Settings by themselves ask for English forms and for their own dictionary.

## Main definitions

* `Engines` — what derives forms and corrects words
* `Engines.ofSettings` — the engines that settings ask for
* `Settings.pass?` — the pass of a stage
* `Settings.passes` — the passes over the tree, in order
-/

namespace SearchQuery

/-- What derives forms and corrects words. -/
structure Engines where
  /-- What derives the forms of words, by language. -/
  inflectors : NameTable Inflector := []
  /-- What corrects words. -/
  corrector : Option Corrector := none

/-- The engines that settings ask for: English forms, and corrections if there is a dictionary. -/
def Engines.ofSettings (s : Settings) : Engines where
  inflectors := [("en", Language.englishForms)]
  corrector :=
    let speller := Language.Speller.ofEntries s.spelling.dictionary
    if speller.isEmpty then none else some speller.correct?

namespace Settings

/-- The pass of a stage. -/
def pass? (s : Settings) (engines : Engines) : TreeStage → Option (Pass Context)
  | .sorting => some (.sorting s.sorting)
  | .fields => some (.fields s.fields)
  | .markers => some (.markers s.markers)
  | .identifiers => some (.identifiers s.identifiers)
  | .spelling => engines.corrector.map (.spelling s.spelling)
  | .synonyms => some (.synonyms s.synonyms)
  | .inflection => some (.inflection s.inflection engines.inflectors)
  | .exactPhrase => some (.exactPhrase s.exactPhrase)
  | .backendShape => some .backendShape
  | .simplification => some .simplification

/-- The passes over the tree, in order. -/
def passes (s : Settings) (engines : Engines) : List (Pass Context) :=
  s.stages.tree.filterMap (s.pass? engines)

end Settings

end SearchQuery
