import SearchQuery.Proofs.Settings.Resolving
import SearchQuery.Proofs.Toml.Documents
import SearchQuery.Settings.Data

/-!
# Settings are read back

Settings that were loaded are written with everything that was left out or came from other files,
and read from what was written as they were. Only the directory of the settings file is not written.

## Why nothing changes

What is written is read section by section, in any order of the entries, since every value is looked
up under its key. Reading lowercases, sorts and trims again, and all of this changes nothing in
settings in normal form. An entry that is nothing is not written, and for each such entry nothing is
also what a settings file without it says.

## Main definitions

* `Settings.source` — what a settings file says that was written for settings

## Main results

* `Settings.ofData?_arrange_entries` — what was written says what it was written for
* `Settings.resolve_source` — settings in normal form are made again
* `Settings.ofToml_of_toToml` — loaded settings are read back from what was written
-/

namespace SearchQuery

open Toml (arrange arrangeValue isSomething nodup_arrange lookup_arrange)

namespace Data

variable {α : Type}

/-- What was written one by one is read one by one. -/
theorem mapM_map_eq_some {β : Type} {read? : β → Option α} {write : α → β} {xs : List α}
    (h : ∀ x ∈ xs, read? (write x) = some x) : (xs.map write).mapM read? = some xs := by
  induction xs with
  | nil => rfl
  | cons x xs ih =>
    rw [List.forall_mem_cons] at h
    rw [List.map_cons, List.mapM_cons, h.1, ih h.2]
    rfl

theorem arrayOf?_map {read? : Data → Option α} {write : α → Data} {xs : List α}
    (h : ∀ x ∈ xs, read? (write x) = some x) :
    arrayOf? read? (.array (xs.map write)) = some xs :=
  mapM_map_eq_some h

theorem tableOf?_map {read? : Data → Option α} {write : α → Data} {table : List (String × α)}
    (h : ∀ entry ∈ table, read? (write entry.2) = some entry.2) :
    tableOf? read? (.table (table.map fun entry => (entry.1, write entry.2))) = some table :=
  mapM_map_eq_some fun entry hentry => by rw [h entry hentry]; rfl

theorem natBelow?_natCast {n bound : Nat} (h : n < bound) :
    natBelow? bound (.integer n) = some n := by
  have hrange : (0 ≤ (n : Int) && (n : Int) < bound) = true := by
    simp only [Int.natCast_nonneg, Int.ofNat_lt.2 h, decide_true, Bool.and_self]
  rw [natBelow?, if_pos hrange, Int.toNat_natCast]

end Data

theorem TextStage.ofName?_name (stage : TextStage) : ofName? stage.name = some stage := by
  cases stage <;> rfl

theorem TreeStage.ofName?_name (stage : TreeStage) : ofName? stage.name = some stage := by
  cases stage <;> rfl

theorem BlankPolicy.ofName?_name (policy : BlankPolicy) : ofName? policy.name = some policy := by
  cases policy <;> rfl

theorem SortDirection.ofName?_name (direction : SortDirection) :
    ofName? direction.name = some direction := by
  cases direction <;> rfl

namespace SettingsSource

variable {α : Type} {entries : Entries} {key : String}

/-! ### Values under keys -/

/-- A value of a table that was written is found under its key. -/
theorem optional?_arrange {d : Data} {read? : Data → Option α} {v : α}
    (hnodup : (entries.map Prod.fst).Nodup) (hlookup : entries.lookup key = some d)
    (hd : isSomething d = true) (hread : read? (arrangeValue d) = some v) :
    optional? read? key (arrange entries) = some (some v) := by
  have hfound : (arrange entries).lookup key = some (arrangeValue d) := by
    rw [lookup_arrange hnodup, hlookup, Option.filter_some, if_pos hd, Option.map_some]
  rw [optional?, hfound]
  cases d with
  | null => cases hd
  | _ => simp_all [arrangeValue]

/-- Nothing is found under a key that was not written. -/
theorem optional?_arrange_eq_none {read? : Data → Option α}
    (hnodup : (entries.map Prod.fst).Nodup) (h : (entries.lookup key).filter isSomething = none) :
    optional? read? key (arrange entries) = some none := by
  rw [optional?, lookup_arrange hnodup, h]
  rfl

theorem valueOr?_arrange {d : Data} {default : α} {read? : Data → Option α} {v : α}
    (hnodup : (entries.map Prod.fst).Nodup) (hlookup : entries.lookup key = some d)
    (hd : isSomething d = true) (hread : read? (arrangeValue d) = some v) :
    valueOr? default read? key (arrange entries) = some v := by
  rw [valueOr?, optional?_arrange hnodup hlookup hd hread]
  rfl

theorem valueOr?_arrange_eq_default {default : α} {read? : Data → Option α}
    (hnodup : (entries.map Prod.fst).Nodup) (h : (entries.lookup key).filter isSomething = none) :
    valueOr? default read? key (arrange entries) = some default := by
  rw [valueOr?, optional?_arrange_eq_none hnodup h]
  rfl

/-! ### Values -/

open Settings (texts textTable textOrNull)

theorem texts?_texts (names : List String) : texts? (texts names) = some names :=
  Data.arrayOf?_map fun _ _ => rfl

theorem names?_texts {set : NameSet} (h : set.IsNormal) : names? (texts set) = some set := by
  have hlower : set.map Text.lower = set := (List.map_congr_left h.lower).trans (List.map_id set)
  rw [names?, texts?_texts, Option.map_some, hlower, NameSet.ofList_eq_self h.sorted]

theorem aliases?_textTable {table : NameTable String} (h : table.IsNormal) :
    aliases? (textTable table) = some table := by
  have hlower : (table.map fun entry => (Text.lower entry.1, Text.lower entry.2)) = table := by
    refine (List.map_congr_left fun entry hentry => ?_).trans (List.map_id table)
    exact Prod.ext (h.lower entry hentry).1 (h.lower entry hentry).2
  have htable : Data.tableOf? Data.string? (textTable table) = some table :=
    Data.tableOf?_map fun _ _ => rfl
  rw [aliases?, htable, Option.map_some, NameTable.ofList_eq_self h.sorted]
  rw [hlower, NameTable.ofList_eq_self h.sorted]

theorem textOrTexts?_texts (names : List String) : textOrTexts? (texts names) = some names :=
  texts?_texts names

theorem scoreText?_text {d : Decimal} (h : d.IsScore) : scoreText? (.string d.text) = some d.text :=
  congrArg some (Decimal.trimmed_text h)

theorem aliases?_arrangeValue {table : NameTable String} (h : table.IsNormal) :
    aliases? (arrangeValue (textTable table)) = some table := by
  rw [textTable, Toml.arrangeValue_map fun _ => rfl]
  exact aliases?_textTable h

/-! ### Sections

Each section is read back from any table that holds its values under their keys. -/

theorem fields?_arrange {fields : FieldSettings} (h : fields.IsNormal)
    (hnodup : (entries.map Prod.fst).Nodup)
    (hvalid : entries.lookup "valid" = some (texts fields.valid))
    (hinvalid : entries.lookup "invalid" = some (texts fields.invalid))
    (hstrict : entries.lookup "strict" = some (.bool fields.strict))
    (haliases : entries.lookup "aliases" = some (textTable fields.aliases)) :
    fields? .toml (arrangeValue (.table entries)) = some fields := by
  have hvalid' : valueOr? [] names? "valid" (arrange entries) = some fields.valid :=
    valueOr?_arrange hnodup hvalid rfl (names?_texts h.valid)
  have hinvalid' : valueOr? [] names? "invalid" (arrange entries) = some fields.invalid :=
    valueOr?_arrange hnodup hinvalid rfl (names?_texts h.invalid)
  have hstrict' : valueOr? false Data.bool? "strict" (arrange entries) = some fields.strict :=
    valueOr?_arrange hnodup hstrict rfl rfl
  have haliases' : valueOr? [] aliases? "aliases" (arrange entries) = some fields.aliases :=
    valueOr?_arrange hnodup haliases rfl (aliases?_arrangeValue h.aliases)
  rw [Toml.arrangeValue_table, fields?, sectionEntries?]
  simp only [Option.bind_eq_bind, Option.bind_some, hvalid', hinvalid', hstrict', haliases']
  rfl

theorem sorting?_arrange {sorting : SortSettings} (h : sorting.IsNormal)
    (hnodup : (entries.map Prod.fst).Nodup)
    (hfield : entries.lookup "field" = some (.string sorting.field))
    (hvalid : entries.lookup "valid" = some (texts sorting.valid))
    (hdirection : entries.lookup "direction" = some (.string sorting.direction.name))
    (haliases : entries.lookup "aliases" = some (textTable sorting.aliases)) :
    sorting? .toml (arrangeValue (.table entries)) = some sorting := by
  have hfield' : valueOr? (SortSettings.field {}) (fun d => d.string?.map Text.lower) "field"
      (arrange entries) = some sorting.field :=
    valueOr?_arrange hnodup hfield rfl (congrArg some h.field)
  have hvalid' : valueOr? [] names? "valid" (arrange entries) = some sorting.valid :=
    valueOr?_arrange hnodup hvalid rfl (names?_texts h.valid)
  have hdirection' : valueOr? (SortSettings.direction {})
      (Data.named? .toml SortDirection.ofName?) "direction" (arrange entries) =
        some sorting.direction :=
    valueOr?_arrange hnodup hdirection rfl sorting.direction.ofName?_name
  have haliases' : valueOr? [] aliases? "aliases" (arrange entries) = some sorting.aliases :=
    valueOr?_arrange hnodup haliases rfl (aliases?_arrangeValue h.aliases)
  rw [Toml.arrangeValue_table, sorting?, sectionEntries?]
  simp only [Option.bind_eq_bind, Option.bind_some, hfield', hvalid', hdirection', haliases']
  rfl

theorem inflection?_arrange {inflection : InflectionSettings} (h : inflection.score.IsScore)
    (hnodup : (entries.map Prod.fst).Nodup)
    (henabled : entries.lookup "enabled" = some (.bool inflection.enabled))
    (haccent : entries.lookup "accent" = some (.bool inflection.accent))
    (hscore : entries.lookup "score" = some (.string inflection.score.text))
    (hdecreasing : entries.lookup "decreasing" = some (.bool inflection.decreasing)) :
    inflection? .toml (arrangeValue (.table entries)) =
      some ({ inflection with score := usualInflectionScore }, some inflection.score.text) := by
  have henabled' : valueOr? (InflectionSettings.enabled {}) Data.bool? "enabled" (arrange entries) =
      some inflection.enabled := valueOr?_arrange hnodup henabled rfl rfl
  have haccent' : valueOr? (InflectionSettings.accent {}) Data.bool? "accent" (arrange entries) =
      some inflection.accent := valueOr?_arrange hnodup haccent rfl rfl
  have hdecreasing' : valueOr? (InflectionSettings.decreasing {}) Data.bool? "decreasing"
      (arrange entries) = some inflection.decreasing := valueOr?_arrange hnodup hdecreasing rfl rfl
  have hscore' : optional? scoreText? "score" (arrange entries) =
      some (some inflection.score.text) :=
    optional?_arrange hnodup hscore rfl (scoreText?_text h)
  rw [Toml.arrangeValue_table, inflection?, sectionEntries?]
  simp only [Option.bind_eq_bind, Option.bind_some, henabled', haccent', hdecreasing', hscore']
  rfl

theorem synonyms?_arrange {sets : List (List String)} (hnodup : (entries.map Prod.fst).Nodup)
    (hsets : entries.lookup "sets" = some (.array (sets.map texts)))
    (hfiles : entries.lookup "files" = none) :
    synonyms? .toml (arrangeValue (.table entries)) = some (sets, []) := by
  have hsets' : valueOr? [] (Data.arrayOf? texts?) "sets" (arrange entries) = some sets :=
    valueOr?_arrange hnodup hsets rfl (Data.arrayOf?_map fun set _ => texts?_texts set)
  have hfiles' : valueOr? [] textOrTexts? "files" (arrange entries) = some [] :=
    valueOr?_arrange_eq_default hnodup (by rw [hfiles, Option.filter_none])
  rw [Toml.arrangeValue_table, synonyms?, sectionEntries?]
  simp only [Option.bind_eq_bind, Option.bind_some, hsets', hfiles']
  rfl

/-- The dictionary as it is written. -/
def countTable (table : NameTable Nat) : Data :=
  .table (table.map fun entry => (entry.1, .integer entry.2))

theorem counts?_arrangeValue {table : NameTable Nat} (h : table.Sorted)
    (hcounts : ∀ entry ∈ table, entry.2 < UInt64.size) :
    (Data.tableOf? (Data.natBelow? UInt64.size) (arrangeValue (countTable table))).map
      NameTable.ofList = some table := by
  have htable : Data.tableOf? (Data.natBelow? UInt64.size) (countTable table) = some table :=
    @Data.tableOf?_map Nat _ (fun n => .integer n) table fun entry hentry =>
      Data.natBelow?_natCast (hcounts entry hentry)
  have harranged : arrangeValue (countTable table) = countTable table :=
    @Toml.arrangeValue_map Nat (fun n => .integer n) (fun _ => rfl) table
  rw [harranged, htable, Option.map_some, NameTable.ofList_eq_self h]

theorem spelling?_arrange {spelling : SpellingSettings}
    (hlower : ∀ l ∈ spelling.languages, Text.IsLowercase l) (hsorted : spelling.dictionary.Sorted)
    (hcounts : ∀ entry ∈ spelling.dictionary, entry.2 < UInt64.size)
    (hnodup : (entries.map Prod.fst).Nodup)
    (hlanguages : entries.lookup "languages" = some (texts spelling.languages))
    (hdictionary : entries.lookup "dictionary" = some (countTable spelling.dictionary))
    (hfiles : entries.lookup "files" = none) :
    spelling? .toml (arrangeValue (.table entries)) = some (spelling, []) := by
  have hmap : (texts? (texts spelling.languages)).map (·.map Text.lower) =
      some spelling.languages := by
    rw [texts?_texts, Option.map_some, List.map_congr_left hlower, List.map_id']
  have hlanguages' : valueOr? (SpellingSettings.languages {})
      (fun d => (texts? d).map (·.map Text.lower)) "languages" (arrange entries) =
        some spelling.languages := valueOr?_arrange hnodup hlanguages rfl hmap
  have hdictionary' : valueOr? [] (fun d =>
      (Data.tableOf? (Data.natBelow? UInt64.size) d).map NameTable.ofList) "dictionary"
        (arrange entries) = some spelling.dictionary :=
    valueOr?_arrange hnodup hdictionary rfl (counts?_arrangeValue hsorted hcounts)
  have hfiles' : valueOr? [] textOrTexts? "files" (arrange entries) = some [] :=
    valueOr?_arrange_eq_default hnodup (by rw [hfiles, Option.filter_none])
  rw [Toml.arrangeValue_table, spelling?, sectionEntries?]
  simp only [Option.bind_eq_bind, Option.bind_some, hlanguages', hdictionary', hfiles']
  rfl

theorem identifiers?_arrange {identifiers : IdentifierSettings} (h : identifiers.score.IsScore)
    (hnodup : (entries.map Prod.fst).Nodup)
    (hscore : entries.lookup "score" = some (.string identifiers.score.text))
    (hfield : entries.lookup "field" = some (.string identifiers.field))
    (hwildcard : entries.lookup "wildcard" = some (.bool identifiers.wildcard)) :
    identifiers? .toml (arrangeValue (.table entries)) =
      some ({ identifiers with score := .one }, some identifiers.score.text) := by
  have hfield' : valueOr? (IdentifierSettings.field {}) Data.string? "field" (arrange entries) =
      some identifiers.field := valueOr?_arrange hnodup hfield rfl rfl
  have hwildcard' : valueOr? (IdentifierSettings.wildcard {}) Data.bool? "wildcard"
      (arrange entries) = some identifiers.wildcard := valueOr?_arrange hnodup hwildcard rfl rfl
  have hscore' : optional? scoreText? "score" (arrange entries) =
      some (some identifiers.score.text) :=
    optional?_arrange hnodup hscore rfl (scoreText?_text h)
  rw [Toml.arrangeValue_table, identifiers?, sectionEntries?]
  simp only [Option.bind_eq_bind, Option.bind_some, hfield', hwildcard', hscore']
  rfl

theorem markers?_arrange {markers : MarkerSettings} (h : markers.forcedClean.Sorted)
    (hnodup : (entries.map Prod.fst).Nodup)
    (hforced : entries.lookup "forced_clean" = some (texts markers.forcedClean)) :
    markers? .toml (arrangeValue (.table entries)) = some markers := by
  have hforced' : valueOr? [] textOrTexts? "forced_clean" (arrange entries) =
      some markers.forcedClean :=
    valueOr?_arrange hnodup hforced rfl (textOrTexts?_texts markers.forcedClean)
  rw [Toml.arrangeValue_table, markers?, sectionEntries?]
  simp only [Option.bind_eq_bind, Option.bind_some, hforced', NameSet.ofList_eq_self h]
  rfl

/-- A text that may be nothing is read back, whether it was written or not. -/
theorem optional?_textOrNull {read? : Data → Option String} {text : Option String}
    (hnodup : (entries.map Prod.fst).Nodup) (hlookup : entries.lookup key = some (textOrNull text))
    (hread : ∀ s ∈ text, read? (.string s) = some s) :
    optional? read? key (arrange entries) = some text := by
  cases text with
  | none => exact optional?_arrange_eq_none hnodup (by rw [hlookup]; rfl)
  | some s => exact optional?_arrange hnodup hlookup rfl (hread s rfl)

theorem exactPhrase?_arrange {exactPhrase : ExactPhraseSettings}
    (h : ∀ d ∈ exactPhrase.score, d.IsScore) (hnodup : (entries.map Prod.fst).Nodup)
    (hfield : entries.lookup "field" = some (textOrNull exactPhrase.field))
    (hscore : entries.lookup "score" = some (textOrNull (exactPhrase.score.map Decimal.text)))
    (hslop : entries.lookup "slop" = some (.integer exactPhrase.slop.toNat)) :
    exactPhrase? .toml (arrangeValue (.table entries)) =
      some ({ exactPhrase with score := none }, exactPhrase.score.map Decimal.text) := by
  have hfield' : optional? Data.string? "field" (arrange entries) = some exactPhrase.field :=
    optional?_textOrNull hnodup hfield fun _ _ => rfl
  have hread : ((Data.integer exactPhrase.slop.toNat).natBelow? UInt32.size).map Nat.toUInt32 =
      some exactPhrase.slop := by
    rw [Data.natBelow?_natCast exactPhrase.slop.toNat_lt, Option.map_some, Nat.toUInt32_eq,
      UInt32.ofNat_toNat]
  have hslop' : valueOr? (ExactPhraseSettings.slop {})
      (fun d => (d.natBelow? UInt32.size).map Nat.toUInt32) "slop" (arrange entries) =
        some exactPhrase.slop := valueOr?_arrange hnodup hslop rfl hread
  have htexts : ∀ s ∈ exactPhrase.score.map Decimal.text, scoreText? (.string s) = some s := by
    intro s hs
    obtain ⟨d, hd, rfl⟩ := Option.map_eq_some_iff.1 hs
    exact scoreText?_text (h d hd)
  have hscore' : optional? scoreText? "score" (arrange entries) =
      some (exactPhrase.score.map Decimal.text) := optional?_textOrNull hnodup hscore htexts
  rw [Toml.arrangeValue_table, exactPhrase?, sectionEntries?]
  simp only [Option.bind_eq_bind, Option.bind_some, hfield', hslop', hscore']
  rfl

theorem stages?_arrange {stages : StageSettings} (hnodup : (entries.map Prod.fst).Nodup)
    (htext : entries.lookup "text" = some (texts (stages.text.map TextStage.name)))
    (htree : entries.lookup "tree" = some (texts (stages.tree.map TreeStage.name))) :
    stages? .toml (arrangeValue (.table entries)) = some stages := by
  have hnames {β : Type} {ofName? : String → Option β} {name : β → String} (xs : List β)
      (h : ∀ x, ofName? (name x) = some x) :
      Data.arrayOf? (Data.named? .toml ofName?) (texts (xs.map name)) = some xs := by
    rw [texts, List.map_map]
    exact Data.arrayOf?_map fun x _ => h x
  have htext' : valueOr? (StageSettings.text {})
      (Data.arrayOf? (Data.named? .toml TextStage.ofName?)) "text" (arrange entries) =
        some stages.text :=
    valueOr?_arrange hnodup htext rfl (hnames stages.text TextStage.ofName?_name)
  have htree' : valueOr? (StageSettings.tree {})
      (Data.arrayOf? (Data.named? .toml TreeStage.ofName?)) "tree" (arrange entries) =
        some stages.tree :=
    valueOr?_arrange hnodup htree rfl (hnames stages.tree TreeStage.ofName?_name)
  rw [Toml.arrangeValue_table, stages?, sectionEntries?]
  simp only [Option.bind_eq_bind, Option.bind_some, htext', htree']
  rfl

end SettingsSource

/-! ### Everything -/

namespace Settings

variable {s : Settings}

/-- What a settings file says that was written for settings. -/
def source (s : Settings) : SettingsSource where
  settings := { s with
    inflection := { s.inflection with score := usualInflectionScore }
    synonyms := .empty
    identifiers := { s.identifiers with score := .one }
    exactPhrase := { s.exactPhrase with score := none }
    root := none }
  inflectionScore := some s.inflection.score.text
  identifierScore := some s.identifiers.score.text
  exactPhraseScore := s.exactPhrase.score.map Decimal.text
  synonymLists := s.synonyms.sets
  synonymFiles := []
  wordFiles := []

theorem nodup_entries (s : Settings) : (s.entries.map Prod.fst).Nodup := by simp [entries]

open SettingsSource in
/-- **What was written says what it was written for.** -/
theorem ofData?_arrange_entries (h : s.IsNormal)
    (hcounts : ∀ entry ∈ s.spelling.dictionary, entry.2 < UInt64.size) :
    SettingsSource.ofData? .toml (.table (arrange s.entries)) = some s.source := by
  have hnodup := s.nodup_entries
  have hinflection : valueOr? ({}, none) (inflection? .toml) "morphology" (arrange s.entries) =
      some ({ s.inflection with score := usualInflectionScore }, some s.inflection.score.text) :=
    valueOr?_arrange hnodup rfl rfl (inflection?_arrange h.inflection (by simp) rfl rfl rfl rfl)
  have hsynonyms : valueOr? ([], []) (synonyms? .toml) "synonyms" (arrange s.entries) =
      some (s.synonyms.sets, []) :=
    valueOr?_arrange hnodup rfl rfl (synonyms?_arrange (by simp) rfl rfl)
  have hspelling : valueOr? ({}, []) (spelling? .toml) "spellcheck" (arrange s.entries) =
      some (s.spelling, []) :=
    valueOr?_arrange hnodup rfl rfl
      (spelling?_arrange h.languages h.dictionary hcounts (by simp) rfl rfl rfl)
  have hidentifiers : valueOr? ({}, none) (identifiers? .toml) "doi" (arrange s.entries) =
      some ({ s.identifiers with score := .one }, some s.identifiers.score.text) :=
    valueOr?_arrange hnodup rfl rfl (identifiers?_arrange h.identifiers (by simp) rfl rfl rfl)
  have hexactPhrase : valueOr? ({}, none) (exactPhrase? .toml) "exact_match" (arrange s.entries) =
      some ({ s.exactPhrase with score := none }, s.exactPhrase.score.map Decimal.text) :=
    valueOr?_arrange hnodup rfl rfl (exactPhrase?_arrange h.exactPhrase (by simp) rfl rfl rfl)
  have hlanguage : optional? (fun d => d.string?.map Text.lower) "language" (arrange s.entries) =
      some s.language :=
    optional?_textOrNull hnodup rfl fun l hl => congrArg some (h.language l hl)
  have hblank : valueOr? .all (Data.named? .toml BlankPolicy.ofName?) "blank" (arrange s.entries) =
      some s.blank := valueOr?_arrange hnodup rfl rfl s.blank.ofName?_name
  have hfields : valueOr? {} (fields? .toml) "fields" (arrange s.entries) = some s.fields :=
    valueOr?_arrange hnodup rfl rfl (fields?_arrange h.fields (by simp) rfl rfl rfl rfl)
  have hsorting : valueOr? {} (sorting? .toml) "order_by" (arrange s.entries) = some s.sorting :=
    valueOr?_arrange hnodup rfl rfl (sorting?_arrange h.sorting (by simp) rfl rfl rfl rfl)
  have hmarkers : valueOr? {} (markers? .toml) "markers" (arrange s.entries) = some s.markers :=
    valueOr?_arrange hnodup rfl rfl (markers?_arrange h.markers (by simp) rfl)
  have hstages : valueOr? {} (stages? .toml) "pipeline" (arrange s.entries) = some s.stages :=
    valueOr?_arrange hnodup rfl rfl (stages?_arrange (by simp) rfl rfl)
  refine Option.bind_eq_some_iff.2 ⟨_, hinflection, Option.bind_eq_some_iff.2 ⟨_, hsynonyms,
    Option.bind_eq_some_iff.2 ⟨_, hspelling, Option.bind_eq_some_iff.2 ⟨_, hidentifiers,
      Option.bind_eq_some_iff.2 ⟨_, hexactPhrase, ?_⟩⟩⟩⟩⟩
  exact Option.bind_eq_some_iff.2 ⟨_, hlanguage, Option.bind_eq_some_iff.2 ⟨_, hblank,
    Option.bind_eq_some_iff.2 ⟨_, hfields, Option.bind_eq_some_iff.2 ⟨_, hsorting,
      Option.bind_eq_some_iff.2 ⟨_, hmarkers, Option.bind_eq_some_iff.2 ⟨_, hstages, rfl⟩⟩⟩⟩⟩⟩

theorem score_map {key : String} {value : Option Decimal} (h : ∀ d ∈ value, d.IsScore) :
    SettingsSource.score key (value.map Decimal.text) none = .ok value := by
  cases value with
  | none => rfl
  | some d => rw [Option.map_some, SettingsSource.score.eq_2, Decimal.score?_text (h d rfl)]

theorem score_some {key : String} {d : Decimal} (h : d.IsScore) (default : Option Decimal) :
    SettingsSource.score key (some d.text) default = .ok (some d) := by
  rw [SettingsSource.score.eq_2, Decimal.score?_text h]

/-- **Settings in normal form are made again** from what was written for them, whatever files there
are. -/
theorem resolve_source (h : s.IsNormal) (tree : FileTree) :
    s.source.resolve tree none = .ok { s with root := none } := by
  have hsynonyms : (SynonymSets.ofLists? (s.synonyms.sets ++ List.flatten [])).mapError
      SettingsError.overlappingSynonyms = .ok s.synonyms := by
    rw [List.flatten_nil, List.append_nil, show SynonymSets.ofLists? _ = _ from h.synonyms]
    rfl
  exact bind_eq_ok_iff.2 ⟨[], rfl, bind_eq_ok_iff.2 ⟨[], rfl,
    bind_eq_ok_iff.2 ⟨_, score_some h.inflection _, bind_eq_ok_iff.2 ⟨_, hsynonyms,
      bind_eq_ok_iff.2 ⟨_, score_some h.identifiers _,
        bind_eq_ok_iff.2 ⟨_, score_map h.exactPhrase, rfl⟩⟩⟩⟩⟩⟩

/-! ### Writing -/

section Writing

open Toml

variable {depth : Nat}

theorem inline_texts (depth : Nat) (names : List String) : Inline (depth + 1) (texts names) := by
  refine .array fun d hd => ?_
  obtain ⟨name, -, rfl⟩ := List.mem_map.1 hd
  exact .string _ name

theorem storable_texts (depth : Nat) (names : List String) : Storable depth (texts names) :=
  (inline_texts _ names).storable depth

theorem storable_textOrNull (depth : Nat) (text : Option String) :
    Storable depth (textOrNull text) := by
  cases text with
  | none => exact storable_null depth
  | some s => exact (Inline.string _ s).storable depth

theorem storable_sets (depth : Nat) (sets : List (List String)) :
    Storable depth (.array (sets.map texts)) := by
  refine Inline.storable (.array fun d hd => ?_) depth
  obtain ⟨names, -, rfl⟩ := List.mem_map.1 hd
  exact inline_texts _ names

/-- A table of values that stand behind their keys can be written. -/
theorem storable_table_map {α : Type} {table : NameTable α} {write : α → Data} (h : table.Sorted)
    (hwrite : ∀ v, Inline nestingLimit (write v)) (depth : Nat) :
    Storable (depth + 1) (.table (table.map fun entry => (entry.1, write entry.2))) := by
  refine Tabled.storable (tabled_of_forall ?_ fun entry hentry => ?_)
  · rw [List.map_map]
    exact h.nodup
  · obtain ⟨e, -, rfl⟩ := List.mem_map.1 hentry
    exact (hwrite e.2).storable depth

theorem tabled_entries (h : s.IsNormal) : Tabled 3 s.entries := by
  have hbool (b : Bool) : Storable 1 (.bool b) := (Inline.bool _ b).storable 1
  have hstring (depth : Nat) (s : String) : Storable depth (.string s) :=
    (Inline.string _ s).storable depth
  refine tabled_of_forall s.nodup_entries ?_
  simp only [entries, List.forall_mem_cons]
  refine ⟨storable_textOrNull 2 _, hstring 2 _,
    Tabled.storable (tabled_of_forall (by simp) ?fields),
    Tabled.storable (tabled_of_forall (by simp) ?sorting),
    Tabled.storable (tabled_of_forall (by simp) ?inflection),
    Tabled.storable (tabled_of_forall (by simp) ?synonyms),
    Tabled.storable (tabled_of_forall (by simp) ?spelling),
    Tabled.storable (tabled_of_forall (by simp) ?identifiers),
    Tabled.storable (tabled_of_forall (by simp) ?markers),
    Tabled.storable (tabled_of_forall (by simp) ?exactPhrase),
    Tabled.storable (tabled_of_forall (by simp) ?stages), by simp⟩
  all_goals simp only [List.forall_mem_cons]
  case fields =>
    exact ⟨storable_texts 1 _, storable_texts 1 _, hbool _,
      storable_table_map h.fields.aliases.sorted (Inline.string _) 0, by simp⟩
  case sorting =>
    exact ⟨hstring 1 _, storable_texts 1 _, hstring 1 _,
      storable_table_map h.sorting.aliases.sorted (Inline.string _) 0, by simp⟩
  case inflection => exact ⟨hbool _, hbool _, hstring 1 _, hbool _, by simp⟩
  case synonyms => exact ⟨storable_sets 1 _, by simp⟩
  case spelling =>
    exact ⟨storable_texts 1 _, storable_table_map h.dictionary (Inline.integer _) 0, by simp⟩
  case identifiers => exact ⟨hstring 1 _, hstring 1 _, hbool _, by simp⟩
  case markers => exact ⟨storable_texts 1 _, by simp⟩
  case exactPhrase =>
    exact ⟨storable_textOrNull 1 _, storable_textOrNull 1 _,
      (Inline.integer _ _).storable 1, by simp⟩
  case stages => exact ⟨storable_texts 1 _, storable_texts 1 _, by simp⟩

/-- Counts that are too large are not written. -/
theorem count_lt_of_write? {text : String} (h : write? s.entries = some text) :
    ∀ entry ∈ s.spelling.dictionary, entry.2 < UInt64.size := by
  intro entry hentry
  obtain ⟨_, -, h⟩ := Option.bind_eq_some_iff.1 h
  obtain ⟨_, htables, -⟩ := Option.bind_eq_some_iff.1 h
  have hspelling : ("spellcheck", Data.table [("languages", texts s.spelling.languages),
      ("dictionary", SettingsSource.countTable s.spelling.dictionary)]) ∈ s.entries := by
    simp [entries, SettingsSource.countTable]
  obtain ⟨_, _, -, htables⟩ := exists_lines?_of_mem htables hspelling
  obtain ⟨_, _, hvalues, -⟩ := exists_lines?_of_mem htables (.tail _ (.head _))
  have hmem : (entry.1, Data.integer entry.2) ∈
      s.spelling.dictionary.map fun entry => (entry.1, Data.integer entry.2) :=
    List.mem_map_of_mem hentry
  obtain ⟨_, hvalue⟩ := exists_valueText?_of_mem hvalues hmem rfl
  rw [valueText?, Option.ite_none_right_eq_some] at hvalue
  have hle := hvalue.1
  have hmax : Int64.maxValue.toInt = 9223372036854775807 := rfl
  have hsize : UInt64.size = 18446744073709551616 := rfl
  omega

end Writing

/-- **Loaded settings are read back** from what was written for them, whatever files there are. Only
the directory of the settings file is not written. -/
theorem ofToml_of_toToml {format : DataFormat} {d : Data} {source : SettingsSource}
    {tree : FileTree} {directory : Option String} {s : Settings} {text : String}
    (hsource : SettingsSource.ofData? format d = some source)
    (hresolve : source.resolve tree directory = .ok s) (hwrite : s.toToml = .ok text)
    (tree' : FileTree) : ofToml text tree' = .ok { s with root := none } := by
  have hnormal : s.IsNormal :=
    isNormal_of_resolve (SettingsSource.isNormal_of_ofData? hsource) hresolve
  have hdocument : Toml.write? s.entries = some text := by
    rw [toToml] at hwrite
    split at hwrite <;> simp_all
  have hread : Toml.read? text = some (.table (arrange s.entries)) :=
    Toml.read?_of_write? (tabled_entries hnormal) (by decide) hdocument
  have hsaid : SettingsSource.ofToml text "<string>" = .ok s.source := by
    rw [SettingsSource.ofToml, hread, Option.bind_some,
      ofData?_arrange_entries hnormal (count_lt_of_write? hdocument)]
  rw [ofToml, hsaid]
  exact resolve_source hnormal tree'

/-- Names in mixed case, a repeated synonym with quotes in it, and a score with blanks and zeros. -/
def mixedCaseData : Data := .table [
  ("language", .string "EN"),
  ("fields", .table [
    ("valid", .array [.string "Title", .string "AUTHOR", .string "title"]),
    ("aliases", .table [("TI", .string "Title")])]),
  ("morphology", .table [("score", .string " 0.50 ")]),
  ("synonyms", .table [
    ("sets", .array [.array [.string "car", .string " motor \"car\" ", .string "car"]])]),
  ("spellcheck", .table [
    ("dictionary", .table [("query", .integer 12), ("caf\u00e9", .integer 3)])])]

/-- The settings that it makes in a directory. -/
def mixedCaseSettings : Settings where
  language := some "en"
  fields := { valid := ["author", "title"], aliases := [("ti", "title")] }
  inflection := { score := .half }
  synonyms := .single ["car", "motor \"car\""] (by decide)
  spelling := { dictionary := [("caf\u00e9", 3), ("query", 12)] }
  root := some "conf"

/-- They are read back in another place. -/
theorem ofToml_of_toToml_mixed_case : ∃ source text,
    SettingsSource.ofData? .json mixedCaseData = some source ∧
    source.resolve {} (some "conf") = .ok mixedCaseSettings ∧
    mixedCaseSettings.toToml = .ok text ∧
    ofToml text {} = .ok { mixedCaseSettings with root := none } := by
  obtain ⟨source, hsource, hresolve⟩ :
      ∃ source, SettingsSource.ofData? .json mixedCaseData = some source ∧
        source.resolve {} (some "conf") = .ok mixedCaseSettings := ⟨_, rfl, rfl⟩
  obtain ⟨text, hwrite⟩ : ∃ text, mixedCaseSettings.toToml = .ok text := ⟨_, rfl⟩
  exact ⟨source, text, hsource, hresolve, hwrite, ofToml_of_toToml hsource hresolve hwrite {}⟩

end Settings

end SearchQuery
