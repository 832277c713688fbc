import SearchQuery.Proofs.Pass.Fields
import SearchQuery.Proofs.Pass.Thinning
import SearchQuery.Proofs.Syntax.Legibility

/-!
# Queries that lose searches in rejected fields

In strict mode a search in a field that may not be searched is dropped, and a query of which nothing
is left after that matches nothing, whatever the settings say about queries without a tree.

## What the record misses

Sort directives are taken out of the query first, and with a directive goes a search in a field that
has nothing else for its body. The pass over the names of fields never sees such a search, nothing
is recorded, and if nothing is left of the query it matches what the settings say, everything by
default. So the condition is that a rejected search has a term that is in no directive.

## Main definitions

* `Settings.LosesField` — a tree has a rejected search of which something is left without directives

## Main results

* `Settings.hasInvalidFields_runPasses_iff` — when the usual passes record a lost search
* `Processor.document_eq_empty_iff_of_strict` — what a query without a tree matches in strict mode
* `Processor.document_eq_all_of_directive_in_field` — a query that has a rejected search and matches
  everything
-/

namespace SearchQuery

open SearchQuery.Expr

/-! ### What is read -/

theorem Expr.IsBound.value?_isSome {L : Lexicon} {e : Expr} (h : e.IsBound L) :
    e.value?.isSome = true := by
  cases h <;> rfl

theorem Expr.boundsAreTerms_of_value?_isSome {e : Expr} (h : e.value?.isSome = true) :
    e.BoundsAreTerms := by
  refine all_of_value?_isSome h fun _ c hc => ?_
  rw [children_of_value?_isSome h] at hc
  cases hc

/-- The bounds of the ranges of a tree that was read are terms. -/
theorem Expr.Normal.boundsAreTerms {L : Lexicon} {e : Expr} (h : e.Normal L) :
    e.BoundsAreTerms := by
  induction h with
  | word | reserved | phrase | regex | url | doi => exact boundsAreTerms_of_value?_isSome rfl
  | group _ _ _ ih => exact all_group.2 ⟨nofun, ih⟩
  | range hleft hright =>
    have hl := hleft.value?_isSome
    have hr := hright.value?_isSome
    refine all_range.2 ⟨fun _ c hc => ?_, boundsAreTerms_of_value?_isSome hl,
      boundsAreTerms_of_value?_isSome hr⟩
    simp only [children, List.mem_cons, List.not_mem_nil, or_false] at hc
    rcases hc with rfl | rfl
    · exact hl
    · exact hr
  | fuzzy => exact all_fuzzy.2 ⟨nofun, boundsAreTerms_of_value?_isSome rfl⟩
  | proximity => exact all_proximity.2 ⟨nofun, boundsAreTerms_of_value?_isSome rfl⟩
  | field _ _ _ ih => exact all_field.2 ⟨nofun, ih⟩
  | boost _ _ ih => exact all_boost.2 ⟨nofun, ih⟩
  | plus _ _ ih => exact all_plus.2 ⟨nofun, ih⟩
  | minus _ _ ih => exact all_minus.2 ⟨nofun, ih⟩

/-! ### What is recorded -/

theorem FieldSettings.ofHead_rejects (s : FieldSettings) : OfHead s.Rejects := by
  rintro e e' - hname ⟨name, he, hvalid⟩
  exact ⟨name, hname.trans he, hvalid⟩

/-- The tree has a search in a rejected field that is not in a sort directive and that has a term
that is in none. -/
def Settings.LosesField (s : Settings) (t : Expr) : Prop :=
  t.Reaches (fun d => (s.sorting.directive? d).isSome = true) fun d =>
    s.fields.Rejects d ∧
      d.Reaches (fun c => (s.sorting.directive? c).isSome = true) fun c => c.value?.isSome = true

theorem Settings.passes_eq_of_all {s : Settings} (hstages : s.stages.tree = TreeStage.all)
    (engines : Engines) : s.passes engines = .sorting s.sorting :: .fields s.fields ::
      TreeStage.all.tail.tail.filterMap (s.pass? engines) := by
  rw [passes, hstages]
  rfl

/-- After the pass over the names of fields, nothing is recorded about lost searches. -/
theorem Settings.hasInvalidFields_runPasses_tail (s : Settings) (engines : Engines)
    (tree? : Option Expr) (c : Context) :
    (runPasses (TreeStage.all.tail.tail.filterMap (s.pass? engines)) tree? c).2.hasInvalidFields =
      c.hasInvalidFields := by
  have hverdict : ∀ p ∈ TreeStage.all.tail.tail.filterMap (s.pass? engines),
      p.KeepsView Context.verdict := by
    intro p hp
    obtain ⟨stage, hstage, hp⟩ := List.mem_filterMap.1 hp
    refine pass?_keepsView_verdict ?_ hp
    rintro rfl
    exact absurd hstage (by decide)
  exact congrArg Prod.fst (runPasses_keepView hverdict tree? c)

/-- **When the usual passes record a lost search.** In strict mode they do if and only if there is a
rejected search of which something is left without sort directives. -/
theorem Settings.hasInvalidFields_runPasses_iff {s : Settings} {engines : Engines}
    (hstages : s.stages.tree = TreeStage.all) (hstrict : s.fields.strict = true) {t : Expr}
    (hfilled : t.Filled) (hbounds : t.BoundsAreTerms) {c : Context}
    (hc : c.hasInvalidFields = false) :
    (runPasses (s.passes engines) (some t) c).2.hasInvalidFields = true ↔ s.LosesField t := by
  have hleft := s.sorting.thins.exists_run_reaches_iff s.fields.ofHead_rejects hfilled hbounds c
  have hverdict : (Pass.sorting s.sorting).KeepsView Context.verdict :=
    Pass.keepsView_of_transform s.sorting.keepsView
  have hflag : ((Pass.sorting s.sorting).run t c).2.hasInvalidFields = false :=
    (congrArg Prod.fst (hverdict t c)).trans hc
  rw [passes_eq_of_all hstages, runPasses_cons, LosesField, ← hleft]
  cases hsorted : ((Pass.sorting s.sorting).run t c).1 with
  | none => simp [hflag]
  | some t' =>
    have hbounds' : t'.BoundsAreTerms := s.sorting.thins.boundsAreTerms_of_run hbounds hsorted
    rw [runPasses_cons, hasInvalidFields_runPasses_tail,
      FieldSettings.hasInvalidFields_run_iff hstrict hbounds']
    simp [hflag]

/-! ### Queries -/

theorem Context.blankQuery_eq_empty_iff {c : Context} :
    c.blankQuery = .empty ↔ c.hasInvalidFields = true ∨ c.blank = .empty := by
  rw [blankQuery]
  cases c.hasInvalidFields <;> cases c.blank <;> simp

theorem Context.blankQuery_eq_all_iff {c : Context} :
    c.blankQuery = .all ↔ ¬ c.hasInvalidFields = true ∧ c.blank = .all := by
  rw [blankQuery]
  cases c.hasInvalidFields <;> cases c.blank <;> simp

theorem Processed.document_eq_ok_iff {p : Processed} (h : p.tree = none) {d : Document} :
    p.document = .ok d ↔ p.context.blankQuery = d := by
  rw [document, h]
  exact ⟨Except.ok.inj, congrArg Except.ok⟩

/-- **What a query without a tree matches in strict mode.** Under the usual passes in the usual
order, a query that is read is processed, and a lost search is recorded if and only if there is a
rejected search of which something is left without sort directives. If nothing is left of such a
query it matches nothing, and any other query of which nothing is left matches what the settings
say. -/
theorem Processor.document_eq_empty_iff_of_strict {s : Settings} (engines : Engines)
    (hstages : s.stages.tree = TreeStage.all) (hstrict : s.fields.strict = true) {query : String}
    {t : Expr} (hparse : parse (prepare s.stages.text query) = .ok (some t)) (hint : Option String)
    (languages : List (String × Number.Floating)) :
    ∃ processed,
      (ofSettingsWith s engines).processWith (some query) hint languages = .ok processed ∧
      (processed.context.hasInvalidFields = true ↔ s.LosesField t) ∧
      (processed.tree = none →
        (processed.document = .ok .empty ↔ s.LosesField t ∨ s.blank = .empty) ∧
        (processed.document = .ok .all ↔ ¬ s.LosesField t ∧ s.blank = .all)) := by
  obtain ⟨processed, language, hrun, -, hcontext⟩ :=
    (ofSettingsWith s engines).exists_processWith_of_parse hparse hint languages
  have hfilled : t.Filled := (derives_of_parseTokens hparse).filled
  have hbounds : t.BoundsAreTerms := (normal_of_parse hparse).boundsAreTerms
  have hlost : processed.context.hasInvalidFields = true ↔ s.LosesField t := by
    rw [hcontext]
    exact Settings.hasInvalidFields_runPasses_iff hstages hstrict hfilled hbounds rfl
  have hblank : processed.context.blank = s.blank := by
    rw [hcontext]
    exact runPasses_keepView (s.passes_keepView_blank engines) (some t) _
  refine ⟨processed, hrun, hlost, fun hnone => ⟨?_, ?_⟩⟩
  · rw [Processed.document_eq_ok_iff hnone, Context.blankQuery_eq_empty_iff, hlost, hblank]
  · rw [Processed.document_eq_ok_iff hnone, Context.blankQuery_eq_all_iff, hlost, hblank]

/-- Strict settings with one valid field and one that can be sorted by. -/
def Settings.strictTitle : Settings where
  fields := { strict := true, valid := ["title"] }
  sorting := { valid := ["f1"] }

/-- The search in the rejected field goes, and so does the directive. The query matches nothing. -/
theorem Processor.document_eq_empty_iff_of_strict_secret :
    ∃ t processed, Settings.strictTitle.stages.tree = TreeStage.all ∧
      Settings.strictTitle.fields.strict = true ∧
      parse (prepare Settings.strictTitle.stages.text "secret:x order_by:f1") = .ok (some t) ∧
      (ofSettingsWith .strictTitle {}).processWith (some "secret:x order_by:f1") none [] =
        .ok processed ∧
      Settings.strictTitle.LosesField t ∧ processed.tree = none ∧
      processed.document = .ok .empty := by
  have hstages : Settings.strictTitle.stages.tree = TreeStage.all := rfl
  have hstrict : Settings.strictTitle.fields.strict = true := rfl
  have hparse : parse (prepare Settings.strictTitle.stages.text "secret:x order_by:f1") =
      .ok (some (.group [.field "secret" (.word "x"), .field "order_by" (.word "f1")])) := by
    with_unfolding_all rfl
  have hlost : Settings.strictTitle.LosesField
      (.group [.field "secret" (.word "x"), .field "order_by" (.word "f1")]) := by
    refine .there (by decide) List.mem_cons_self (.here (by decide) ⟨?_, ?_⟩)
    · exact ⟨"secret", rfl, by decide⟩
    · exact .there (by decide) List.mem_cons_self (.here (by decide) rfl)
  have hpasses (c : Context) : runPasses (Settings.strictTitle.passes {})
      (some (.group [.field "secret" (.word "x"), .field "order_by" (.word "f1")])) c =
        (none, { c with sortOrder := some ⟨"f1", .descending⟩, hasInvalidFields := true }) := by
    with_unfolding_all rfl
  obtain ⟨processed, hrun, -, hdocument⟩ :=
    document_eq_empty_iff_of_strict {} hstages hstrict hparse none []
  have hresult := (ofSettingsWith .strictTitle {}).processWith_of_parse none [] (by decide) hparse
    (hpasses _)
  have htree : processed.tree = none := by
    cases hrun.symm.trans hresult
    rfl
  exact ⟨_, processed, hstages, hstrict, hparse, hrun, hlost, htree,
    (hdocument htree).1.2 (.inl hlost)⟩

/-- **A query that has a search in a rejected field and matches everything.** The directive is all
that the search has, so the search goes with it and is not recorded. -/
theorem Processor.document_eq_all_of_directive_in_field :
    ∃ t processed, Settings.strictTitle.stages.tree = TreeStage.all ∧
      Settings.strictTitle.fields.strict = true ∧
      parse (prepare Settings.strictTitle.stages.text "secret:order_by:f1") = .ok (some t) ∧
      Settings.strictTitle.fields.Rejects t ∧ Settings.strictTitle.sorting.directive? t = none ∧
      (ofSettingsWith .strictTitle {}).processWith (some "secret:order_by:f1") none [] =
        .ok processed ∧
      processed.tree = none ∧ processed.document = .ok .all := by
  have hparse : parse (prepare Settings.strictTitle.stages.text "secret:order_by:f1") =
      .ok (some (.field "secret" (.field "order_by" (.word "f1")))) := by with_unfolding_all rfl
  have hpasses (c : Context) : runPasses (Settings.strictTitle.passes {})
      (some (.field "secret" (.field "order_by" (.word "f1")))) c =
        (none, { c with sortOrder := some ⟨"f1", .descending⟩ }) := by with_unfolding_all rfl
  have hrun := (ofSettingsWith .strictTitle {}).processWith_of_parse none [] (by decide) hparse
    (hpasses _)
  exact ⟨_, _, rfl, rfl, hparse, ⟨"secret", rfl, by decide⟩, by decide, hrun, rfl, rfl⟩

end SearchQuery
