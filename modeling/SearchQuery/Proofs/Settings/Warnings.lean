import SearchQuery.Proofs.Pass.Rebuilding
import SearchQuery.Settings.Warnings

/-!
# What warnings say about the passes

Settings are checked when they are loaded, and the passes look names up when a query is processed.
Neither knows of the other. Warnings are given by table: a name that is listed twice, an alias whose
target is missing from a list. A pass asks about one name: it goes through the aliases and then
through the lists. No warning is given exactly if the passes accept all that the settings mention.

## Empty lists

No alias is reported where the list of valid names is empty, since then every target is missing from
it. That the list is empty is reported itself, so the silence about the aliases hides nothing.

## Main definitions

* `SortSettings.Sorts` — a word that the pass takes as the wish to sort by a field

## Main results

* `FieldSettings.warnings_eq_nil_iff`, `SortSettings.warnings_eq_nil_iff` — when a section of the
  settings is not complained about
* `not_mem_warnings_iff_accepts` — warnings agree with the passes
-/

namespace SearchQuery

variable {w : SettingsWarning}

/-! ### What warnings are about -/

theorem exists_of_mem_aliasWarnings {sectionName : String} {valid : NameSet}
    {aliases : NameTable String} (h : w ∈ aliasWarnings sectionName valid aliases) :
    ∃ name target, w = .aliasTargetNotValid sectionName name target := by
  rw [aliasWarnings] at h
  split at h
  · cases h
  · obtain ⟨entry, -, rfl⟩ := List.mem_map.1 h
    exact ⟨entry.1, entry.2, rfl⟩

theorem FieldSettings.cases_of_mem_warnings {s : FieldSettings} (h : w ∈ s.warnings) :
    w = .noValidFields ∨ (∃ name, w = .fieldValidAndInvalid name) ∨
      ∃ name target, w = .aliasTargetNotValid "fields" name target := by
  rw [warnings, List.mem_append, List.mem_append] at h
  rcases h with (hempty | hboth) | halias
  · split at hempty
    · exact .inl (List.mem_singleton.1 hempty)
    · cases hempty
  · obtain ⟨name, -, rfl⟩ := List.mem_map.1 hboth
    exact .inr (.inl ⟨name, rfl⟩)
  · exact .inr (.inr (exists_of_mem_aliasWarnings halias))

theorem SortSettings.cases_of_mem_warnings {s : SortSettings} (h : w ∈ s.warnings) :
    w = .noSortableFields ∨ ∃ name target, w = .aliasTargetNotValid "order_by" name target := by
  rw [warnings, List.mem_append] at h
  rcases h with hempty | halias
  · split at hempty
    · exact .inl (List.mem_singleton.1 hempty)
    · cases hempty
  · exact .inr (exists_of_mem_aliasWarnings halias)

theorem SpellingSettings.eq_of_mem_warnings {s : SpellingSettings} (h : w ∈ s.warnings) :
    w = .emptyDictionary := by
  rw [warnings] at h
  split at h
  · exact List.mem_singleton.1 h
  · cases h

/-- Each pass that runs has its warnings. -/
theorem Settings.mem_warnings_iff {s : Settings} :
    w ∈ s.warnings ↔ (.fields ∈ s.stages.tree ∧ w ∈ s.fields.warnings) ∨
      (.sorting ∈ s.stages.tree ∧ w ∈ s.sorting.warnings) ∨
      (.spelling ∈ s.stages.tree ∧ w ∈ s.spelling.warnings) := by
  have hwhen (stage : TreeStage) (ws : List SettingsWarning) :
      w ∈ (if s.stages.tree.contains stage then ws else []) ↔
        stage ∈ s.stages.tree ∧ w ∈ ws := by
    by_cases h : stage ∈ s.stages.tree <;> simp [h]
  rw [warnings, List.mem_append, List.mem_append, hwhen, hwhen, hwhen, or_assoc]

/-! ### What the pass over sort directives takes -/

/-- The pass over sort directives takes the word, searched for in the field that stands for sorting,
as the wish to sort by the field. -/
def SortSettings.Sorts (s : SortSettings) (word field : String) : Prop :=
  ∀ c, (Pass.sorting s).run (.field s.field (.word word)) c =
    (none, { c with sortOrder := some ⟨field, s.direction⟩ })

/-- A word is taken if what it stands for can be sorted by, and it is kept otherwise. -/
theorem SortSettings.sorts_iff {s : SortSettings} {word field : String} :
    s.Sorts word field ↔ s.resolve? word = some field := by
  have hdirective : s.directive? (.field s.field (.word word)) = s.resolve? word := if_pos rfl
  cases hresolve : s.resolve? word with
  | some name =>
    have hrun (c : Context) : (Pass.sorting s).run (.field s.field (.word word)) c =
        (none, { c with sortOrder := some ⟨name, s.direction⟩ }) := by
      have hremove : s.transform (.field s.field (.word word)) [] c =
          (.remove, { c with sortOrder := some ⟨name, s.direction⟩ }) := by
        rw [transform, hdirective, hresolve]
      exact Pass.parentsFirst_of_remove (p := .sorting s) rfl hremove
    refine ⟨fun h => ?_, fun h c => ?_⟩
    · have hnote := congrArg (Context.sortOrder ∘ Prod.snd) ((hrun {}).symm.trans (h {}))
      exact congrArg (Option.map SortOrder.field) hnote
    · cases h
      exact hrun c
  | none =>
    have hkeep (parents : List Kind) (c : Context) :
        s.transform (.field s.field (.word word)) parents c =
          (.keep (.field s.field (.word word)), c) := by
      rw [transform, hdirective, hresolve]
    have hrun : (Pass.sorting s).run (.field s.field (.word word)) {} =
        (some (.field s.field (.word word)), {}) :=
      Pass.parentsFirst_eq_self (p := .sorting s) (Expr.all_field.2
        ⟨⟨trivial, hkeep⟩, Expr.all_word.2 ⟨trivial, fun _ _ => rfl⟩⟩) [] {}
    refine ⟨fun h => ?_, fun h => absurd h.symm (Option.some_ne_none field)⟩
    cases hrun.symm.trans (h {})

theorem SortSettings.exists_sorts_iff {s : SortSettings} {word target : String}
    (h : s.aliases.get? word = some target) :
    (∃ field, s.Sorts word field) ↔ target ∈ s.valid := by
  simp only [sorts_iff, resolve?, h, Option.getD_some]
  by_cases hmem : target ∈ s.valid <;> simp [hmem]

/-! ### Sections without warnings -/

theorem aliasWarnings_eq_nil_iff {sectionName : String} {valid : NameSet}
    {aliases : NameTable String} (hvalid : valid ≠ []) :
    aliasWarnings sectionName valid aliases = [] ↔ ∀ entry ∈ aliases, entry.2 ∈ valid := by
  rw [aliasWarnings, if_neg (by simpa using hvalid)]
  simp

/-- Nothing is said about fields exactly if the pass accepts all that is mentioned. -/
theorem FieldSettings.warnings_eq_nil_iff {s : FieldSettings} :
    s.warnings = [] ↔ s.valid ≠ [] ∧ (∀ name ∈ s.valid, s.isValid name = true) ∧
      ∀ entry ∈ s.aliases, s.isValid entry.2 = true := by
  have hboth : (s.valid.filter s.invalid.contains).map SettingsWarning.fieldValidAndInvalid = [] ↔
      ∀ name ∈ s.valid, s.isValid name = true := by
    simp +contextual [isValid]
  rw [warnings, List.append_eq_nil_iff, List.append_eq_nil_iff, hboth]
  by_cases hvalid : s.valid = []
  · simp [hvalid]
  rw [aliasWarnings_eq_nil_iff hvalid, if_neg (by simpa using hvalid)]
  refine ⟨fun ⟨⟨_, hnames⟩, htargets⟩ => ⟨hvalid, hnames, fun entry hentry => ?_⟩,
    fun ⟨_, hnames, htargets⟩ => ⟨⟨rfl, hnames⟩, fun entry hentry => ?_⟩⟩
  · exact hnames entry.2 (htargets entry hentry)
  · have haccepted := htargets entry hentry
    simp only [isValid, Bool.and_eq_true, List.contains_iff_mem] at haccepted
    exact haccepted.1

/-- Nothing is said about sort directives exactly if the pass takes every alias. -/
theorem SortSettings.warnings_eq_nil_iff {s : SortSettings} (hsorted : s.aliases.Sorted) :
    s.warnings = [] ↔
      s.valid ≠ [] ∧ ∀ name ∈ s.aliases.names, ∃ field, s.Sorts name field := by
  have haliases : (∀ name ∈ s.aliases.names, ∃ field, s.Sorts name field) ↔
      ∀ entry ∈ s.aliases, entry.2 ∈ s.valid := by
    rw [NameTable.names, List.forall_mem_map]
    exact forall₂_congr fun _ hentry =>
      exists_sorts_iff ((NameTable.mem_iff_get?_eq_some hsorted).1 hentry)
  rw [haliases, warnings, List.append_eq_nil_iff]
  by_cases hvalid : s.valid = []
  · simp [hvalid]
  rw [aliasWarnings_eq_nil_iff hvalid, if_neg (by simpa using hvalid)]
  exact and_congr_left' ⟨fun _ => hvalid, fun _ => rfl⟩

/-! ### Agreement -/

/-- **Warnings agree with the passes.** If the pass over fields runs, none of its warnings is given
exactly if some field may be searched and the pass accepts every field that is listed as valid and
the target of every alias. If the pass over sort directives runs, none of its warnings is given
exactly if some field can be sorted by and the pass takes every alias as a wish to sort. -/
theorem not_mem_warnings_iff_accepts (s : Settings) (hsorted : s.sorting.aliases.Sorted) :
    (.fields ∈ s.stages.tree →
      ((.noValidFields ∉ s.warnings ∧
          (∀ name, .fieldValidAndInvalid name ∉ s.warnings) ∧
          ∀ name target, .aliasTargetNotValid "fields" name target ∉ s.warnings) ↔
        s.fields.valid ≠ [] ∧ (∀ name ∈ s.fields.valid, s.fields.isValid name = true) ∧
          ∀ entry ∈ s.fields.aliases, s.fields.isValid entry.2 = true)) ∧
    (.sorting ∈ s.stages.tree →
      ((.noSortableFields ∉ s.warnings ∧
          ∀ name target, .aliasTargetNotValid "order_by" name target ∉ s.warnings) ↔
        s.sorting.valid ≠ [] ∧
          ∀ name ∈ s.sorting.aliases.names, ∃ field, s.sorting.Sorts name field)) := by
  have hfields (w) (h : w ∈ s.fields.warnings) := FieldSettings.cases_of_mem_warnings h
  have hsorting (w) (h : w ∈ s.sorting.warnings) := SortSettings.cases_of_mem_warnings h
  have hspelling (w) (h : w ∈ s.spelling.warnings) := SpellingSettings.eq_of_mem_warnings h
  refine ⟨fun hstage => ?_, fun hstage => ?_⟩
  · rw [← FieldSettings.warnings_eq_nil_iff, List.eq_nil_iff_forall_not_mem]
    simp only [Settings.mem_warnings_iff, hstage, true_and]
    grind
  · rw [← SortSettings.warnings_eq_nil_iff hsorted, List.eq_nil_iff_forall_not_mem]
    simp only [Settings.mem_warnings_iff, hstage, true_and]
    grind

/-- The year may be sorted by, and it is listed as a field that may be searched and as one that may
not. -/
def contradictoryYear : Settings where
  fields := { valid := ["title", "year"], invalid := ["year"] }
  sorting := { valid := ["year"], aliases := [("new", "year")] }

/-- There is a warning about the year, which the pass over fields rejects, and none about sorting by
it, for which the alias may be used. -/
theorem not_mem_warnings_iff_accepts_year :
    contradictoryYear.sorting.aliases.Sorted ∧
      TreeStage.fields ∈ contradictoryYear.stages.tree ∧
      TreeStage.sorting ∈ contradictoryYear.stages.tree ∧
      .fieldValidAndInvalid "year" ∈ contradictoryYear.warnings ∧
      ¬ (∀ name ∈ contradictoryYear.fields.valid,
        contradictoryYear.fields.isValid name = true) ∧
      .noSortableFields ∉ contradictoryYear.warnings ∧
      ∃ field, contradictoryYear.sorting.Sorts "new" field := by
  have hsorted : contradictoryYear.sorting.aliases.Sorted := List.pairwise_singleton _ _
  have hwarnings : contradictoryYear.warnings =
      [.fieldValidAndInvalid "year", .emptyDictionary] := by decide
  obtain ⟨hfields, hsorting⟩ := not_mem_warnings_iff_accepts contradictoryYear hsorted
  have hnone : .noSortableFields ∉ contradictoryYear.warnings ∧
      ∀ name target, .aliasTargetNotValid "order_by" name target ∉ contradictoryYear.warnings := by
    simp [hwarnings]
  refine ⟨hsorted, by decide, by decide, by simp [hwarnings], fun hnames => ?_, hnone.1,
    ((hsorting (by decide)).1 hnone).2 "new" (by decide)⟩
  have haliases : contradictoryYear.fields.aliases = [] := rfl
  exact ((hfields (by decide)).2 ⟨by decide, hnames, by simp [haliases]⟩).2.1 "year"
    (by simp [hwarnings])

end SearchQuery
