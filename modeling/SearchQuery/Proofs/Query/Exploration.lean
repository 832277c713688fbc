import SearchQuery.Proofs.Query.ExactPhrases

/-!
# Queries of free words

A query looks like browsing if it names no identifier and points at no particular documents. Free
words and phrases do neither. The usual passes add alternatives and weights to them, which do
neither, and searches for the phrases that they spell. If the settings name a field for these
searches, they look like searches in a field that the query asks for.

## Main results

* `Processed.isExplorationQuery_iff` — when a processed query looks like browsing
* `Processor.isExplorationQuery_iff_of_words` — when a query of free words and phrases does
* `Processor.isExplorationQuery_eq_false_of_field` — a query of free words that does not
-/

namespace SearchQuery

open SearchQuery.Expr

theorem Processed.isExplorationQuery_iff {p : Processed} {e : Expr} (h : p.tree = some e) :
    p.isExplorationQuery = true ↔ p.context.dois = [] ∧ ¬ e.PointsAtDocuments := by
  have hvisits : (wantedNodes e).any (fun n => isLookup n.kind) = true ↔ e.PointsAtDocuments := by
    have hreaches := @exists_mem_visits_iff (fun d => isLookup d.kind = true) e (· == .minus)
    rw [PointsAtDocuments, ← hreaches]
    simp [wantedNodes]
  rw [isExplorationQuery, h, ← hvisits]
  simp

/-- The tree has words, phrases and groups only. -/
def Expr.IsFreeText (e : Expr) : Prop :=
  e.All fun d => d.kind = .word ∨ d.kind = .phrase ∨ d.kind = .group

theorem Expr.IsFreeText.isWording {e : Expr} (h : e.IsFreeText) : e.IsWording := by
  refine h.imp fun d hd => ?_
  rcases hd with hd | hd | hd <;> rw [hd] <;> rfl

/-- A processed query that names no identifier and has only words, phrases and added phrases. -/
theorem Processed.isExplorationQuery_iff_of_isWordingWith {p : Processed}
    {s : ExactPhraseSettings} {Q : String → Prop} {e : Expr} (htree : p.tree = some e)
    (hdois : p.context.dois = []) (he : e.IsWordingWith s Q) :
    p.isExplorationQuery = true ↔ s.field = none ∨ ¬ e.HasDistance := by
  rw [isExplorationQuery_iff htree, and_iff_right hdois, he.pointsAtDocuments_iff]
  simp [or_iff_not_imp_left]

namespace Processor

/-- What a query of free words and phrases becomes. -/
theorem exists_isWordingWith_of_processWith {s : Settings} (engines : Engines)
    (hstages : s.stages.tree = TreeStage.all) {query : String} {t : Expr}
    (hparse : parse (prepare s.stages.text query) = .ok (some t)) (hfree : t.IsFreeText)
    (hnames : t.NamesNoIdentifier) (hint : Option String)
    (languages : List (String × Number.Floating)) :
    ∃ processed,
      (ofSettingsWith s engines).processWith (some query) hint languages = .ok processed ∧
      processed.context.dois = [] ∧
      ∀ e, processed.tree = some e → e.IsWordingWith s.exactPhrase fun _ => True := by
  obtain ⟨processed, language, hrun, htree, hcontext⟩ :=
    (ofSettingsWith s engines).exists_processWith_of_parse hparse hint languages
  obtain ⟨hdois, hwording⟩ := Settings.isWordingWith_of_runPasses engines hstages
    hfree.isWording (derives_of_parseTokens hparse).filled hnames
    { (ofSettingsWith s engines).freshContext languages with language }
  refine ⟨processed, hrun, ?_, fun e he => hwording e (htree.symm.trans he)⟩
  exact (congrArg Context.dois hcontext).trans hdois

/-- **When a query of free words and phrases looks like browsing.** Under the usual passes in the
usual order, whatever the engines are, a query of words, phrases and groups is processed. If none of
its words is the beginning of an identifier with an asterisk and something is left of it, it looks
like browsing if and only if the settings name no field for added phrases or no phrase has been
added. -/
theorem isExplorationQuery_iff_of_words {s : Settings} (engines : Engines)
    (hstages : s.stages.tree = TreeStage.all) {query : String} {t : Expr}
    (hparse : parse (prepare s.stages.text query) = .ok (some t)) (hfree : t.IsFreeText)
    (hnames : t.NamesNoIdentifier) (hint : Option String)
    (languages : List (String × Number.Floating)) :
    ∃ processed,
      (ofSettingsWith s engines).processWith (some query) hint languages = .ok processed ∧
      ∀ e, processed.tree = some e →
        (processed.isExplorationQuery = true ↔ s.exactPhrase.field = none ∨ ¬ e.HasDistance) := by
  obtain ⟨processed, hrun, hdois, hwording⟩ :=
    exists_isWordingWith_of_processWith engines hstages hparse hfree hnames hint languages
  exact ⟨processed, hrun, fun e he =>
    Processed.isExplorationQuery_iff_of_isWordingWith he hdois (hwording e he)⟩

end Processor

/-! ### Two words -/

/-- Settings that search in the usual fields for added phrases, or in another one. -/
def Settings.phrasesIn (field : Option String) : Settings where
  exactPhrase := { field }
  stages := { text := [] }

theorem Settings.keepsText_phrasesIn (field language : Option String) (w : String) :
    (phrasesIn field).KeepsText {} language w := by
  have hcorrection : (phrasesIn field).correction? {} language w = none := by
    simp [correction?]
  rw [KeepsText, hcorrection]
  rintro set ⟨⟩

/-- Two free words. -/
def Expr.searchEngine : Expr := .group (["search", "engine"].map .word)

namespace Expr

set_option maxRecDepth 1000 in
theorem parse_searchEngine (field : Option String) :
    parse (prepare (Settings.phrasesIn field).stages.text "search engine") =
      .ok (some searchEngine) := by
  change parse "search engine" = .ok (some searchEngine)
  with_unfolding_all rfl

theorem isFreeText_searchEngine : searchEngine.IsFreeText :=
  Settings.all_words (.inr (.inr rfl)) fun _ _ => .inl rfl

theorem leavesWord_searchEngine (field : Option String) :
    ∀ w ∈ ["search", "engine"], (Settings.phrasesIn field).LeavesWord w := by
  simp only [List.forall_mem_cons, List.not_mem_nil, false_imp_iff, implies_true, and_true]
  exact ⟨⟨by decide, rfl, by with_unfolding_all rfl⟩,
    by decide, rfl, by with_unfolding_all rfl⟩

theorem namesNoIdentifier_searchEngine : searchEngine.NamesNoIdentifier := by
  refine Settings.all_words (fun v hv => by cases hv) fun w hw v hv => ?_
  cases hv
  exact (leavesWord_searchEngine none w hw).pattern

end Expr

/-- The phrase of the two words is searched for. -/
theorem Processor.exists_hasDistance_searchEngine (field : Option String) :
    ∃ processed e,
      (ofSettingsWith (.phrasesIn field) {}).processWith (some "search engine") none [] =
        .ok processed ∧
      processed.tree = some e ∧ e.HasDistance := by
  obtain ⟨processed, hrun, hsearches⟩ := exists_processWith_of_words (s := .phrasesIn field) {} rfl
    (parse_searchEngine field) (by decide) (leavesWord_searchEngine field) none []
  have hspelled : addedPhrase? (["search", "engine"].map ((Settings.phrasesIn field).widened {}
      processed.context.language)) = some (" ".intercalate ["search", "engine"]) :=
    (Settings.addedPhrase?_widened_iff (by decide) (by decide)).2 fun w _ =>
      Settings.keepsText_phrasesIn field processed.context.language w
  obtain ⟨e, htree, hdistance⟩ := (hsearches _).2 hspelled
  refine ⟨processed, e, hrun, htree, hdistance.imp (fun _ => id) ?_⟩
  rintro d ⟨distance, rfl⟩
  rfl

/-- With added phrases in the usual fields, two words look like browsing. -/
theorem Processor.isExplorationQuery_iff_of_words_searchEngine :
    ∃ processed e, parse (prepare (Settings.phrasesIn none).stages.text "search engine") =
        .ok (some .searchEngine) ∧
      (ofSettingsWith (.phrasesIn none) {}).processWith (some "search engine") none [] =
        .ok processed ∧
      processed.tree = some e ∧ e.HasDistance ∧ processed.isExplorationQuery = true := by
  obtain ⟨processed, e, hrun, htree, hdistance⟩ := exists_hasDistance_searchEngine none
  obtain ⟨_, hrun', hbrowses⟩ := isExplorationQuery_iff_of_words (s := .phrasesIn none) {} rfl
    (parse_searchEngine none) isFreeText_searchEngine namesNoIdentifier_searchEngine none []
  cases hrun.symm.trans hrun'
  exact ⟨processed, e, parse_searchEngine none, hrun, htree, hdistance,
    (hbrowses e htree).2 (.inl rfl)⟩

/-- **A query of free words that does not look like browsing.** The settings name a field for added
phrases, and the search in it looks like one that the query asks for. -/
theorem Processor.isExplorationQuery_eq_false_of_field :
    ∃ processed e, parse (prepare (Settings.phrasesIn (some "title")).stages.text "search engine") =
        .ok (some .searchEngine) ∧
      Expr.searchEngine.IsFreeText ∧ Expr.searchEngine.NamesNoIdentifier ∧
      (ofSettingsWith (.phrasesIn (some "title")) {}).processWith (some "search engine") none [] =
        .ok processed ∧
      processed.tree = some e ∧ processed.isExplorationQuery = false := by
  obtain ⟨processed, e, hrun, htree, hdistance⟩ := exists_hasDistance_searchEngine (some "title")
  obtain ⟨_, hrun', hdois, hwording⟩ := exists_isWordingWith_of_processWith
    (s := .phrasesIn (some "title")) {} rfl (parse_searchEngine (some "title"))
    isFreeText_searchEngine namesNoIdentifier_searchEngine none []
  cases hrun.symm.trans hrun'
  refine ⟨processed, e, parse_searchEngine _, isFreeText_searchEngine,
    namesNoIdentifier_searchEngine, hrun, htree, Bool.eq_false_iff.2 fun hbrowses => ?_⟩
  rcases (Processed.isExplorationQuery_iff_of_isWordingWith htree hdois (hwording e htree)).1
    hbrowses with hfield | hnone
  · cases hfield
  · exact hnone hdistance

end SearchQuery
