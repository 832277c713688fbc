import SearchQuery.Proofs.Document.Filled
import SearchQuery.Proofs.Pass.Fields

/-!
# Queries are confined to the fields that may be searched

A query names fields, by themselves or through aliases, anywhere in it. If one of the passes is the
one over the names of fields, the document searches only in fields that are valid and in the two
that the settings name for identifiers and for exact phrases. A field that the settings deny is out
of reach, unless it is one of those two.

## The place of the pass

The pass may run at any time. Before it, any name may be in the tree, and all that counts is that
the tree is filled; after it the other passes give fields no names but those in the settings, and
pushing fields down to terms does not change names.

## Main definitions

* `Settings.Permits` — the fields that queries may search in
* `Document.SearchesIn` — the fields that a document searches in

## Main results

* `Processor.filledIn_of_processWith` — processed trees search in permitted fields
* `Processor.searchesIn_of_processWith` — so do documents, and denied fields are out of reach
-/

namespace SearchQuery

open SearchQuery.Expr

/-- The field is valid, or the settings search in it for identifiers or for exact phrases. -/
def Settings.Permits (s : Settings) (name : String) : Prop :=
  s.fields.isValid name = true ∨ name = s.identifiers.field ∨ s.exactPhrase.field = some name

theorem Settings.namesIn_permits (s : Settings) : s.NamesIn s.Permits where
  valid _ h := .inl h
  identifiers := .inr (.inl rfl)
  exactPhrase _ h := .inr (.inr h)

/-- A denied field is not valid, so it is permitted only as one of the two fields of the
settings. -/
theorem Settings.not_permits {s : Settings} {name : String} (hdenied : name ∈ s.fields.invalid)
    (hidentifiers : name ≠ s.identifiers.field) (hexact : s.exactPhrase.field ≠ some name) :
    ¬ s.Permits name := by
  rintro (hvalid | h | h)
  · exact (FieldSettings.isValid_iff.1 hvalid).2 hdenied
  · exact hidentifiers h
  · exact hexact h

namespace Document

variable {names : String → Prop} {d : Document}

/-- Every clause for a term, a phrase, a regular expression or a range is in a field with one of the
names. -/
def SearchesIn (names : String → Prop) (d : Document) : Prop :=
  d.All fun c => ∀ name, c.fieldName? = some name → names name

theorem FilledIn.searchesIn (h : d.FilledIn names) : d.SearchesIn names := h.imp fun _ hc => hc.2

/-- What a query without a tree matches is one clause that searches in no field. -/
theorem searchesIn_blankQuery (c : Context) : c.blankQuery.SearchesIn names := by
  have hleaf {d : Document} (hparts : d.parts = []) (hname : d.fieldName? = none) :
      d.SearchesIn names := by
    refine ⟨fun name h => ?_, fun c hc => ?_⟩
    · rw [hname] at h
      cases h
    · rw [hparts] at hc
      cases hc
  rw [Context.blankQuery]
  split
  · exact hleaf rfl rfl
  · split
    · exact hleaf rfl rfl
    · exact hleaf rfl rfl

end Document

/-! ### Queries -/

namespace Processor

variable {s : Settings} {engines : Engines} {query hint : Option String}
  {languages : List (String × Number.Floating)} {processed : Processed}

/-- A processed tree searches in permitted fields, if one of the passes looks at names. -/
theorem filledIn_of_processWith (hstage : TreeStage.fields ∈ s.stages.tree)
    (h : (ofSettingsWith s engines).processWith query hint languages = .ok processed) {e : Expr}
    (he : processed.tree = some e) : e.FilledIn s.Permits := by
  obtain ⟨ts, d, c, hderives, hrun⟩ := exists_of_processWith h he
  have hmem : Pass.fields s.fields ∈ s.passes engines :=
    List.mem_filterMap.2 ⟨.fields, hstage, rfl⟩
  refine runPasses_establishes hmem (s.passes_preserve_filled engines)
    (Settings.passes_preserve_filledIn s.namesIn_permits engines) (fun e e' c he hpass => ?_)
    hderives.filled hrun
  exact (FieldSettings.filledIn_of_run he hpass).mono fun _ hvalid => .inl hvalid

/-- **Queries are confined to permitted fields.** If the pass over the names of fields is among the
stages, at whatever place and with whatever other stages, then every clause of the document for a
term, a phrase, a regular expression or a range is in a permitted field, and none is in a field that
the settings deny. -/
theorem searchesIn_of_processWith (hstage : TreeStage.fields ∈ s.stages.tree)
    (h : (ofSettingsWith s engines).processWith query hint languages = .ok processed)
    {d : Document} (hd : processed.document = .ok d) :
    d.SearchesIn s.Permits ∧
      ∀ name ∈ s.fields.invalid, name ≠ s.identifiers.field → s.exactPhrase.field ≠ some name →
        d.SearchesIn (· ≠ name) := by
  have hsearches : d.SearchesIn s.Permits := by
    rw [Processed.document] at hd
    split at hd
    · rename_i e he
      have htree : e.FilledIn s.Permits := filledIn_of_processWith hstage h he
      exact (filledIn_of_compile htree hd).searchesIn
    · cases hd
      exact Document.searchesIn_blankQuery _
  refine ⟨hsearches, fun name hdenied hidentifiers hexact => ?_⟩
  refine hsearches.imp fun c hc found hfound hname => ?_
  exact Settings.not_permits hdenied hidentifiers hexact (hname ▸ hc found hfound)

end Processor

/-- Settings with an alias for a valid field and one for a field that is denied although it is
listed. -/
def Settings.withDeniedYear : Settings where
  fields :=
    { valid := ["title", "year"], invalid := ["year"], aliases := [("t", "title"), ("y", "year")] }
  stages := { text := [], tree := [.fields, .backendShape] }

/-- The denied year becomes a word: below a group in another field, and as an alias below a sign. -/
theorem Processor.searchesIn_of_processWith_denied_year :
    ∃ processed d, TreeStage.fields ∈ Settings.withDeniedYear.stages.tree ∧
      (ofSettingsWith .withDeniedYear {}).processWith (some "t:(rust year:1984) +y:x") none [] =
        .ok processed ∧
      processed.document = .ok d ∧
      d = .boolean [
        (.should, .boolean [(.should, .term "title" "rust"),
          (.should, .boolean [(.should, .term "title" "year"), (.should, .term "title" "1984")])]),
        (.should, .boolean [(.must, .freeText "year"), (.must, .freeText "x")])] ∧
      d.SearchesIn Settings.withDeniedYear.Permits ∧
      "year" ∈ Settings.withDeniedYear.fields.invalid ∧ d.SearchesIn (· ≠ "year") := by
  have hparse : parse "t:(rust year:1984) +y:x" =
      .ok (some (.group [.field "t" (.group [.word "rust", .field "year" (.word "1984")]),
        .plus (.field "y" (.word "x"))])) := by with_unfolding_all rfl
  have hpasses (c : Context) : runPasses (Settings.withDeniedYear.passes {})
      (some (.group [.field "t" (.group [.word "rust", .field "year" (.word "1984")]),
        .plus (.field "y" (.word "x"))])) c =
      (some (.group [
        .group [.field "title" (.word "rust"),
          .group [.field "title" (.word "year"), .field "title" (.word "1984")]],
        .group [.plus (.word "year"), .plus (.word "x")]]), c) := by with_unfolding_all rfl
  have hrun := (ofSettingsWith .withDeniedYear {}).processWith_of_parse none [] (by decide) hparse
    (hpasses _)
  have hstage : TreeStage.fields ∈ Settings.withDeniedYear.stages.tree := by decide
  have hconfined := searchesIn_of_processWith hstage hrun rfl
  have hdenied : "year" ∈ Settings.withDeniedYear.fields.invalid := by decide
  exact ⟨_, _, hstage, hrun, rfl, by with_unfolding_all rfl, hconfined.1, hdenied,
    hconfined.2 "year" hdenied (by decide) (by decide)⟩

end SearchQuery
