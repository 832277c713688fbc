import SearchQuery.Proofs.Settings.NormalForm

/-!
# Loaded settings are in normal form

Every section of a settings file is brought into normal form when it is read, and what is loaded
from other files keeps the form. So whatever a settings file and the files it names hold, the
settings that come out can be loaded again without being changed.

## Main definitions

* `Settings.IsNormal` — the settings are in normal form

## Main results

* `SettingsSource.isNormal_of_ofData?` — what a settings file says is in normal form
* `Settings.isNormal_of_resolve` — so are the settings that it makes
-/

namespace SearchQuery

/-! ### Settings in normal form -/

/-- The text is in lowercase: lowercasing does not change it. -/
def Text.IsLowercase (s : String) : Prop := lower s = s

instance (s : String) : Decidable (Text.IsLowercase s) :=
  inferInstanceAs (Decidable (Text.lower s = s))

/-- A set of lowercase names in ascending order. -/
structure NameSet.IsNormal (set : NameSet) : Prop where
  /-- The names are in ascending order. -/
  sorted : set.Sorted
  /-- The names are in lowercase. -/
  lower : ∀ name ∈ set, Text.IsLowercase name

/-- A table of lowercase names for lowercase names, in ascending order. -/
structure NameTable.IsNormal (table : NameTable String) : Prop where
  /-- The names are in ascending order. -/
  sorted : table.Sorted
  /-- The names, and what they stand for, are in lowercase. -/
  lower : ∀ entry ∈ table, Text.IsLowercase entry.1 ∧ Text.IsLowercase entry.2

/-- The names of fields are in normal form. -/
structure FieldSettings.IsNormal (fields : FieldSettings) : Prop where
  /-- The fields that may be searched. -/
  valid : fields.valid.IsNormal
  /-- The fields that may not. -/
  invalid : fields.invalid.IsNormal
  /-- Other names of fields. -/
  aliases : fields.aliases.IsNormal

/-- The names of sort directives are in normal form. -/
structure SortSettings.IsNormal (sorting : SortSettings) : Prop where
  /-- The name that stands where a field would. -/
  field : Text.IsLowercase sorting.field
  /-- The fields that can be sorted by. -/
  valid : sorting.valid.IsNormal
  /-- Other names of fields. -/
  aliases : sorting.aliases.IsNormal

/-- The settings are in normal form: loading them again would not change them. -/
structure Settings.IsNormal (s : Settings) : Prop where
  /-- The usual language is in lowercase. -/
  language : ∀ l ∈ s.language, Text.IsLowercase l
  /-- The names of fields. -/
  fields : s.fields.IsNormal
  /-- The names of sort directives. -/
  sorting : s.sorting.IsNormal
  /-- The weight of a derived form is a score. -/
  inflection : s.inflection.score.IsScore
  /-- The synonym sets are those of their own terms. -/
  synonyms : s.synonyms.IsNormal
  /-- The languages of corrections are in lowercase. -/
  languages : ∀ l ∈ s.spelling.languages, Text.IsLowercase l
  /-- The words of the dictionary are in ascending order. -/
  dictionary : s.spelling.dictionary.Sorted
  /-- The weight of the search for an identifier is a score. -/
  identifiers : s.identifiers.score.IsScore
  /-- The marker words are in ascending order. -/
  markers : s.markers.forcedClean.Sorted
  /-- The weight of the search for an exact phrase is a score. -/
  exactPhrase : ∀ d ∈ s.exactPhrase.score, d.IsScore

namespace SettingsSource

variable {α : Type} {format : DataFormat} {d : Data} {entries : Entries} {key : String}

/-! ### Values -/

theorem of_optional? {P : α → Prop} {read? : Data → Option α} {v : Option α}
    (h : optional? read? key entries = some v) (hread : ∀ d v, read? d = some v → P v) :
    ∀ x ∈ v, P x := by
  rw [optional?] at h
  split at h
  · cases h
    rintro x ⟨⟩
  · cases h
    rintro x ⟨⟩
  · obtain ⟨x, hx, h⟩ := Option.map_eq_some_iff.1 h
    cases h
    rintro y ⟨⟩
    exact hread _ x hx

theorem of_valueOr? {P : α → Prop} {default : α} {read? : Data → Option α} {v : α}
    (h : valueOr? default read? key entries = some v) (hdefault : P default)
    (hread : ∀ d v, read? d = some v → P v) : P v := by
  obtain ⟨found, hfound, rfl⟩ := Option.map_eq_some_iff.1 h
  cases found with
  | none => exact hdefault
  | some x => exact of_optional? hfound hread x rfl

theorem isNormal_of_names? {names : NameSet} (h : names? d = some names) : names.IsNormal := by
  obtain ⟨texts, -, rfl⟩ := Option.map_eq_some_iff.1 h
  refine ⟨NameSet.sorted_ofList _, fun name hname => ?_⟩
  obtain ⟨text, -, rfl⟩ := List.mem_map.1 (NameSet.mem_ofList.1 hname)
  exact Text.lower_lower text

theorem isNormal_of_aliases? {aliases : NameTable String} (h : aliases? d = some aliases) :
    aliases.IsNormal := by
  obtain ⟨entries, -, rfl⟩ := Option.map_eq_some_iff.1 h
  refine ⟨NameTable.sorted_ofList _, fun entry hentry => ?_⟩
  obtain ⟨e, -, rfl⟩ := List.mem_map.1 (NameTable.mem_of_mem_ofList hentry)
  exact ⟨Text.lower_lower e.1, Text.lower_lower e.2⟩

theorem isNormal_nil : NameSet.IsNormal [] := ⟨List.Pairwise.nil, by simp⟩

theorem isNormal_noAliases : NameTable.IsNormal [] := ⟨List.Pairwise.nil, by simp⟩

/-! ### Sections -/

theorem isNormal_of_fields? {fields : FieldSettings} (h : fields? format d = some fields) :
    fields.IsNormal := by
  obtain ⟨entries, -, h⟩ := Option.bind_eq_some_iff.1 h
  obtain ⟨valid, hvalid, h⟩ := Option.bind_eq_some_iff.1 h
  obtain ⟨invalid, hinvalid, h⟩ := Option.bind_eq_some_iff.1 h
  obtain ⟨strict, -, h⟩ := Option.bind_eq_some_iff.1 h
  obtain ⟨aliases, haliases, h⟩ := Option.bind_eq_some_iff.1 h
  cases h
  exact {
    valid := of_valueOr? hvalid isNormal_nil fun _ _ => isNormal_of_names?
    invalid := of_valueOr? hinvalid isNormal_nil fun _ _ => isNormal_of_names?
    aliases := of_valueOr? haliases isNormal_noAliases fun _ _ => isNormal_of_aliases? }

theorem isLowercase_of_string? {name : String} (h : d.string?.map Text.lower = some name) :
    Text.IsLowercase name := by
  obtain ⟨text, -, rfl⟩ := Option.map_eq_some_iff.1 h
  exact Text.lower_lower text

theorem isNormal_of_sorting? {sorting : SortSettings} (h : sorting? format d = some sorting) :
    sorting.IsNormal := by
  obtain ⟨entries, -, h⟩ := Option.bind_eq_some_iff.1 h
  obtain ⟨field, hfield, h⟩ := Option.bind_eq_some_iff.1 h
  obtain ⟨valid, hvalid, h⟩ := Option.bind_eq_some_iff.1 h
  obtain ⟨direction, -, h⟩ := Option.bind_eq_some_iff.1 h
  obtain ⟨aliases, haliases, h⟩ := Option.bind_eq_some_iff.1 h
  cases h
  have husual : Text.IsLowercase (SortSettings.field {}) := by decide
  exact {
    field := of_valueOr? (P := Text.IsLowercase) hfield husual fun _ _ => isLowercase_of_string?
    valid := of_valueOr? hvalid isNormal_nil fun _ _ => isNormal_of_names?
    aliases := of_valueOr? haliases isNormal_noAliases fun _ _ => isNormal_of_aliases? }

theorem score_of_inflection? {found : InflectionSettings × Option String}
    (h : inflection? format d = some found) : found.1.score = usualInflectionScore := by
  obtain ⟨entries, -, h⟩ := Option.bind_eq_some_iff.1 h
  obtain ⟨enabled, -, h⟩ := Option.bind_eq_some_iff.1 h
  obtain ⟨accent, -, h⟩ := Option.bind_eq_some_iff.1 h
  obtain ⟨decreasing, -, h⟩ := Option.bind_eq_some_iff.1 h
  obtain ⟨score, -, h⟩ := Option.bind_eq_some_iff.1 h
  cases h
  rfl

theorem isNormal_of_spelling? {found : SpellingSettings × List String}
    (h : spelling? format d = some found) :
    (∀ l ∈ found.1.languages, Text.IsLowercase l) ∧ found.1.dictionary.Sorted := by
  obtain ⟨entries, -, h⟩ := Option.bind_eq_some_iff.1 h
  obtain ⟨languages, hlanguages, h⟩ := Option.bind_eq_some_iff.1 h
  obtain ⟨dictionary, hdictionary, h⟩ := Option.bind_eq_some_iff.1 h
  obtain ⟨files, -, h⟩ := Option.bind_eq_some_iff.1 h
  cases h
  constructor
  · refine of_valueOr? (P := fun languages => ∀ l ∈ languages, Text.IsLowercase l) hlanguages ?_
      fun d languages h => ?_
    · decide
    · obtain ⟨texts, -, rfl⟩ := Option.map_eq_some_iff.1 h
      intro l hl
      obtain ⟨text, -, rfl⟩ := List.mem_map.1 hl
      exact Text.lower_lower text
  · refine of_valueOr? (P := NameTable.Sorted) hdictionary List.Pairwise.nil
      fun d dictionary h => ?_
    obtain ⟨counts, -, rfl⟩ := Option.map_eq_some_iff.1 h
    exact NameTable.sorted_ofList counts

theorem score_of_identifiers? {found : IdentifierSettings × Option String}
    (h : identifiers? format d = some found) : found.1.score = .one := by
  obtain ⟨entries, -, h⟩ := Option.bind_eq_some_iff.1 h
  obtain ⟨field, -, h⟩ := Option.bind_eq_some_iff.1 h
  obtain ⟨wildcard, -, h⟩ := Option.bind_eq_some_iff.1 h
  obtain ⟨score, -, h⟩ := Option.bind_eq_some_iff.1 h
  cases h
  rfl

theorem sorted_of_markers? {markers : MarkerSettings} (h : markers? format d = some markers) :
    markers.forcedClean.Sorted := by
  obtain ⟨entries, -, h⟩ := Option.bind_eq_some_iff.1 h
  obtain ⟨forced, -, h⟩ := Option.bind_eq_some_iff.1 h
  cases h
  exact NameSet.sorted_ofList forced

theorem score_of_exactPhrase? {found : ExactPhraseSettings × Option String}
    (h : exactPhrase? format d = some found) : found.1.score = none := by
  obtain ⟨entries, -, h⟩ := Option.bind_eq_some_iff.1 h
  obtain ⟨field, -, h⟩ := Option.bind_eq_some_iff.1 h
  obtain ⟨slop, -, h⟩ := Option.bind_eq_some_iff.1 h
  obtain ⟨score, -, h⟩ := Option.bind_eq_some_iff.1 h
  cases h
  rfl

/-! ### Everything -/

/-- **What a settings file says is in normal form.** -/
theorem isNormal_of_ofData? {source : SettingsSource} (h : ofData? format d = some source) :
    source.settings.IsNormal := by
  obtain ⟨entries, -, h⟩ := Option.bind_eq_some_iff.1 h
  obtain ⟨⟨inflection, inflectionScore⟩, hinflection, h⟩ := Option.bind_eq_some_iff.1 h
  obtain ⟨⟨synonymLists, synonymFiles⟩, -, h⟩ := Option.bind_eq_some_iff.1 h
  obtain ⟨⟨spelling, wordFiles⟩, hspelling, h⟩ := Option.bind_eq_some_iff.1 h
  obtain ⟨⟨identifiers, identifierScore⟩, hidentifiers, h⟩ := Option.bind_eq_some_iff.1 h
  obtain ⟨⟨exactPhrase, exactPhraseScore⟩, hexactPhrase, h⟩ := Option.bind_eq_some_iff.1 h
  obtain ⟨language, hlanguage, h⟩ := Option.bind_eq_some_iff.1 h
  obtain ⟨blank, -, h⟩ := Option.bind_eq_some_iff.1 h
  obtain ⟨fields, hfields, h⟩ := Option.bind_eq_some_iff.1 h
  obtain ⟨sorting, hsorting, h⟩ := Option.bind_eq_some_iff.1 h
  obtain ⟨markers, hmarkers, h⟩ := Option.bind_eq_some_iff.1 h
  obtain ⟨stages, -, h⟩ := Option.bind_eq_some_iff.1 h
  cases h
  have hinflectionScore : inflection.score = usualInflectionScore :=
    of_valueOr? (P := fun found => found.1.score = usualInflectionScore) hinflection rfl
      fun _ _ => score_of_inflection?
  have hidentifierScore : identifiers.score = .one :=
    of_valueOr? (P := fun found => found.1.score = .one) hidentifiers rfl
      fun _ _ => score_of_identifiers?
  have hexactPhraseScore : exactPhrase.score = none :=
    of_valueOr? (P := fun found => found.1.score = none) hexactPhrase rfl
      fun _ _ => score_of_exactPhrase?
  have hwords : (∀ l ∈ spelling.languages, Text.IsLowercase l) ∧ spelling.dictionary.Sorted :=
    of_valueOr? (P := fun found =>
      (∀ l ∈ found.1.languages, Text.IsLowercase l) ∧ found.1.dictionary.Sorted) hspelling
      ⟨by decide, List.Pairwise.nil⟩ fun _ _ => isNormal_of_spelling?
  exact {
    language := of_optional? hlanguage fun _ _ => isLowercase_of_string?
    fields := of_valueOr? hfields ⟨isNormal_nil, isNormal_nil, isNormal_noAliases⟩
      fun _ _ => isNormal_of_fields?
    sorting := of_valueOr? hsorting ⟨by decide, isNormal_nil, isNormal_noAliases⟩
      fun _ _ => isNormal_of_sorting?
    inflection := by rw [hinflectionScore]; exact ⟨rfl, by decide⟩
    synonyms := rfl
    languages := hwords.1
    dictionary := hwords.2
    identifiers := by rw [hidentifierScore]; exact ⟨rfl, by decide⟩
    markers := of_valueOr? (P := fun markers => markers.forcedClean.Sorted) hmarkers
      List.Pairwise.nil fun _ _ => sorted_of_markers?
    exactPhrase := by rw [hexactPhraseScore]; rintro d ⟨⟩ }

end SettingsSource

/-! ### Resolving -/

theorem WordList.sorted_addTo {dictionary : NameTable Nat} (h : dictionary.Sorted)
    (entries : List (String × Nat)) : (addTo dictionary entries).Sorted := by
  induction entries generalizing dictionary with
  | nil => exact h
  | cons entry entries ih => exact ih (NameTable.sorted_update h)

theorem SettingsSource.isScore_of_score {key : String} {written : Option String}
    {default found : Option Decimal} (h : score key written default = .ok found)
    (hdefault : ∀ d ∈ default, d.IsScore) : ∀ d ∈ found, d.IsScore := by
  cases written with
  | none =>
    cases h
    exact hdefault
  | some text =>
    rw [score.eq_2] at h
    split at h
    · rename_i d hd
      cases h
      rintro d ⟨⟩
      exact Decimal.isScore_of_score? hd
    · cases h

namespace Settings

/-- **Loaded settings are in normal form**, whatever is in the files that they are loaded from. -/
theorem isNormal_of_resolve {source : SettingsSource} {tree : FileTree} {directory : Option String}
    {s : Settings} (hsource : source.settings.IsNormal)
    (h : source.resolve tree directory = .ok s) : s.IsNormal := by
  rw [SettingsSource.resolve] at h
  dsimp only at h
  obtain ⟨lists, -, h⟩ := bind_eq_ok_iff.1 h
  obtain ⟨words, -, h⟩ := bind_eq_ok_iff.1 h
  obtain ⟨inflectionScore, hinflection, h⟩ := bind_eq_ok_iff.1 h
  obtain ⟨synonyms, hsynonyms, h⟩ := bind_eq_ok_iff.1 h
  obtain ⟨identifierScore, hidentifiers, h⟩ := bind_eq_ok_iff.1 h
  obtain ⟨exactPhraseScore, hexactPhrase, h⟩ := bind_eq_ok_iff.1 h
  cases h
  have hinflectionScore := SettingsSource.isScore_of_score hinflection
    fun d hd => Option.mem_some.1 hd ▸ hsource.inflection
  have hidentifierScore := SettingsSource.isScore_of_score hidentifiers
    fun d hd => Option.mem_some.1 hd ▸ hsource.identifiers
  exact { hsource with
    inflection := by
      cases inflectionScore with
      | none => exact hsource.inflection
      | some d => exact hinflectionScore d rfl
    synonyms := by
      cases hlists : SynonymSets.ofLists? (source.synonymLists ++ lists.flatten) with
      | error overlap => simp [hlists, Except.mapError] at hsynonyms
      | ok sets =>
        rw [hlists] at hsynonyms
        cases hsynonyms
        exact SynonymSets.isNormal_of_ofLists? hlists
    dictionary := WordList.sorted_addTo hsource.dictionary _
    identifiers := by
      cases identifierScore with
      | none => exact hsource.identifiers
      | some d => exact hidentifierScore d rfl
    exactPhrase := SettingsSource.isScore_of_score hexactPhrase hsource.exactPhrase }

end Settings

end SearchQuery
