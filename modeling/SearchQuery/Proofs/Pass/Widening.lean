import SearchQuery.Proofs.Pass.Wording

/-!
# What becomes of free words

The usual passes on a group of words, word by word. A word with a correction is paired with it, and
a pair has no synonyms. Any other word becomes the phrases of its synonym set, if it has one. What
is still a word is joined by its other forms, in a pair too.

## Main definitions

* `Settings.correction?` — the correction that a word is paired with
* `Settings.widened` — what a word becomes

## Main results

* `Settings.runPasses_words` — the usual passes on a group of words
-/

namespace SearchQuery

open SearchQuery.Expr

namespace Settings

variable (s : Settings) (engines : Engines) (language : Option String) (w : String)

/-- The correction that a word is paired with, in a query in the language. -/
def correction? : Option String :=
  if language.any s.spelling.languages.contains then
    engines.corrector.bind fun correct? =>
      match correct? w with
      | some better => if better = w then none else some better
      | none => none
  else none

/-- The forms of a word that are added, in a query in the language. -/
def otherForms : List Expr := s.inflection.forms (language.bind engines.inflectors.get?) w

/-- A word with its other forms, in a query in the language. -/
def inflected : Expr := s.inflection.expand (language.bind engines.inflectors.get?) w

/-- A word with its correction. -/
def paired : Expr :=
  match s.correction? engines language w with
  | some better => .synonyms [.word w, .word better]
  | none => .word w

/-- A word with its correction, or else its synonym set. -/
def interchanged : Expr :=
  match s.correction? engines language w with
  | some better => .synonyms [.word w, .word better]
  | none =>
    match s.synonyms.get? w with
    | some set => .synonyms (set.map .phrase)
    | none => .word w

/-- What a word becomes. -/
def widened : Expr :=
  match s.correction? engines language w with
  | some better =>
    .synonyms [s.inflected engines language w, s.inflected engines language better]
  | none =>
    match s.synonyms.get? w with
    | some set => .synonyms (set.map .phrase)
    | none => s.inflected engines language w

variable {s engines w} {ws : List String} (c : Context)

/-! ### Pass by pass -/

section Nodes

variable {p : Pass Context} {parents : List Kind} {a b : String} {x y : Expr}

/-- A word that a pass keeps. -/
theorem parentsFirst_word (hp : p.transform.KeepsView (id : Context → Context))
    (hignores : p.ignores .word = false)
    (h : (p.transform (.word a) parents c).1 = .keep (.word a)) :
    (p.parentsFirst parents (.word a) c).1 = some (.word a) :=
  (Pass.parentsFirst_eq_rebuild (e := .word a) hp hignores h).trans rebuild_word

/-- A pair of words that a pass keeps, with what becomes of the words. -/
theorem parentsFirst_pair (hp : p.transform.KeepsView (id : Context → Context))
    (hignores : p.ignores .synonyms = false)
    (h : (p.transform (.synonyms [.word a, .word b]) parents c).1 =
      .keep (.synonyms [.word a, .word b]))
    (ha : (p.parentsFirst (parents ++ [.synonyms]) (.word a) c).1 = some x)
    (hb : (p.parentsFirst (parents ++ [.synonyms]) (.word b) c).1 = some y) :
    (p.parentsFirst parents (.synonyms [.word a, .word b]) c).1 = some (.synonyms [x, y]) := by
  have halternatives : [Expr.word a, .word b].filterMap (fun d =>
      (p.parentsFirst (parents ++ [.synonyms]) d c).1) = [x, y] := by
    simp [ha, hb]
  refine (Pass.parentsFirst_eq_rebuild (e := .synonyms _) hp hignores h).trans ?_
  exact rebuild_synonyms.trans (congrArg (gather Expr.synonyms) halternatives)

end Nodes

theorem corrected_word {language : Option String} {correct? : Corrector}
    (h : engines.corrector = some correct?)
    (hlanguage : language.any s.spelling.languages.contains = true) (w : String) :
    (Expr.word w).corrected correct? = s.paired engines language w := by
  rw [paired, correction?, if_pos hlanguage, h, Expr.corrected, Option.bind_some]
  cases correct? w with
  | none => rfl
  | some better =>
    dsimp only
    split <;> rfl

theorem paired_eq_word {language : Option String}
    (h : ¬ language.any s.spelling.languages.contains = true) :
    s.paired engines language = .word := by
  funext w
  rw [paired, correction?, if_neg h]

theorem run_spelling (hws : ws ≠ []) {correct? : Corrector}
    (h : engines.corrector = some correct?) :
    (Pass.spelling s.spelling correct?).run (.group (ws.map .word)) c =
      (some (.group (ws.map (s.paired engines c.language))), c) := by
  have hkeeps : (s.spelling.transform correct?).KeepsView (id : Context → Context) :=
    s.spelling.keepsView correct?
  by_cases happlies : s.spelling.applies c = true
  · have hpaired : ∀ w, (Expr.word w).corrected correct? = s.paired engines c.language w :=
      corrected_word h happlies
    have htransform : (s.spelling.transform correct? (.group (ws.map .word)) [] c).1 =
        .keep (.group (ws.map (s.paired engines c.language))) := by
      simp [SpellingSettings.transform, happlies, Function.comp_def, hpaired]
    have hword {parents : List Kind} (hparents : parents ≠ []) (v : String) :
        ((Pass.spelling s.spelling correct?).parentsFirst parents (.word v) c).1 =
          some (.word v) := by
      have hkeep : (s.spelling.transform correct? (.word v) parents c).1 = .keep (.word v) := by
        simp [SpellingSettings.transform, happlies, hparents]
      exact parentsFirst_word c hkeeps rfl hkeep
    refine Pass.run_group_of_keep rfl hkeeps rfl htransform hws fun w _ => ?_
    rw [paired]
    split
    · rename_i better _
      have hkeep : (s.spelling.transform correct? (.synonyms [.word w, .word better]) [.group]
          c).1 = .keep (.synonyms [.word w, .word better]) := by
        simp [SpellingSettings.transform, happlies]
      exact parentsFirst_pair c hkeeps rfl hkeep (hword (by simp) w) (hword (by simp) better)
    · exact hword (by simp) w
  · have hfinal : (s.spelling.transform correct? (.group (ws.map .word)) [] c).1 =
        .final (.group (ws.map .word)) := by
      simp [SpellingSettings.transform, happlies]
    have hpaired : s.paired engines c.language = .word := paired_eq_word happlies
    have htree : ((Pass.spelling s.spelling correct?).parentsFirst [] (.group (ws.map .word)) c).1 =
        some (.group (ws.map .word)) :=
      Pass.parentsFirst_of_final (p := .spelling s.spelling correct?) rfl hfinal
    rw [hpaired]
    exact (Pass.parentsFirst_eq (p := .spelling s.spelling correct?) hkeeps).trans (by rw [htree])

theorem run_synonyms (hws : ws ≠ []) (hunescape : ∀ w ∈ ws, unescape w = w)
    (language : Option String) :
    (Pass.synonyms s.synonyms).run (.group (ws.map (s.paired engines language))) c =
      (some (.group (ws.map (s.interchanged engines language))), c) := by
  have hkeeps : s.synonyms.transform.KeepsView (id : Context → Context) := s.synonyms.keepsView
  refine Pass.run_group_of_keep (f := s.paired engines language) rfl hkeeps rfl rfl hws
    fun w hw => ?_
  rw [paired, interchanged]
  split
  · -- Neither the pair nor a word in it is free.
    exact parentsFirst_pair c hkeeps rfl rfl (parentsFirst_word c hkeeps rfl rfl)
      (parentsFirst_word c hkeeps rfl rfl)
  · have halternatives : s.synonyms.alternatives? (.word w) =
        (s.synonyms.get? w).map fun set => .synonyms (set.map .phrase) := by
      rw [SynonymSets.alternatives?, SynonymSets.expand?, hunescape w hw]
    cases hset : s.synonyms.get? w with
    | none =>
      have hkeep : (s.synonyms.transform (.word w) [.group] c).1 = .keep (.word w) := by
        simp [SynonymSets.transform, isFree, halternatives, hset]
      exact parentsFirst_word c hkeeps rfl hkeep
    | some set =>
      have hfinal : (s.synonyms.transform (.word w) [.group] c).1 =
          .final (.synonyms (set.map .phrase)) := by
        simp [SynonymSets.transform, isFree, halternatives, hset]
      exact Pass.parentsFirst_of_final (p := .synonyms s.synonyms) rfl hfinal

theorem run_inflection (hws : ws ≠ []) :
    (Pass.inflection s.inflection engines.inflectors).run
      (.group (ws.map (s.interchanged engines c.language))) c =
      (some (.group (ws.map (s.widened engines c.language))), c) := by
  have hkeeps : (s.inflection.transform engines.inflectors).KeepsView (id : Context → Context) :=
    s.inflection.keepsView engines.inflectors
  have hword {parents : List Kind} (v : String) :
      ((Pass.inflection s.inflection engines.inflectors).parentsFirst parents (.word v) c).1 =
        some (s.inflected engines c.language v) :=
    Pass.parentsFirst_of_final (p := .inflection s.inflection engines.inflectors) rfl rfl
  refine Pass.run_group_of_keep (f := s.interchanged engines c.language) rfl hkeeps rfl rfl hws
    fun w _ => ?_
  rw [interchanged, widened]
  split
  · exact parentsFirst_pair c hkeeps rfl rfl (hword w) (hword _)
  · split
    · rename_i set hset
      have hne : set.map Expr.phrase ≠ [] := by
        simpa using s.synonyms.ne_nil set (SynonymSets.get?_eq_some_iff.1 hset).1
      refine congrArg Prod.fst (Pass.parentsFirst_eq_self
        (p := .inflection s.inflection engines.inflectors) ?_ [.group] c)
      have hphrases : ∀ e ∈ set.map Expr.phrase, e.All fun d => d.HasOperands ∧
          ∀ parents c, s.inflection.transform engines.inflectors d parents c = (.keep d, c) := by
        intro e he
        obtain ⟨v, -, rfl⟩ := List.mem_map.1 he
        exact all_phrase.2 ⟨trivial, fun _ _ => rfl⟩
      exact all_synonyms.2 ⟨⟨hne, fun _ _ => rfl⟩, hphrases⟩
    · exact hword w

/-! ### All passes -/

/-- A word that is read as nothing but a word. -/
structure LeavesWord (s : Settings) (w : String) : Prop where
  /-- It stands for itself. -/
  unescape : SearchQuery.unescape w = w
  /-- It is no marker. -/
  marker : s.markers.isMarker w = false
  /-- It is not the beginning of an identifier with an asterisk. -/
  pattern : Doi.pattern? (Text.lowercase w.toList) = none

theorem all_words {P : Expr → Prop} (hgroup : P (.group (ws.map .word)))
    (hword : ∀ w ∈ ws, P (.word w)) : (Expr.group (ws.map .word)).All P :=
  all_group.2 ⟨hgroup, by simpa using hword⟩

/-- The passes that widen words, one after the other. -/
theorem runPasses_wideningPasses (hws : ws ≠ []) (hunescape : ∀ w ∈ ws, unescape w = w) :
    runPasses (s.wideningPasses engines) (some (.group (ws.map .word))) c =
      (some (.group (ws.map (s.widened engines c.language))), c) := by
  have hlast : runPasses [.synonyms s.synonyms, .inflection s.inflection engines.inflectors]
      (some (.group (ws.map (s.paired engines c.language)))) c =
        (some (.group (ws.map (s.widened engines c.language))), c) := by
    rw [runPasses_cons, run_synonyms c hws hunescape, runPasses_cons, run_inflection c hws]
    rfl
  rw [wideningPasses]
  cases hcorrector : engines.corrector with
  | none =>
    have hpaired : s.paired engines c.language = .word := by
      funext w
      rw [paired, correction?, hcorrector]
      simp
    rw [hpaired] at hlast
    exact hlast
  | some correct? =>
    exact (congrArg (fun r => runPasses _ r.1 r.2) (run_spelling c hws hcorrector)).trans hlast

/-- **The usual passes on a group of words.** -/
theorem runPasses_words (hstages : s.stages.tree = TreeStage.all) (hws : ws ≠ [])
    (hwords : ∀ w ∈ ws, s.LeavesWord w) :
    runPasses (s.passes engines) (some (.group (ws.map .word))) c =
      ((Expr.group (ws.map (s.widened engines c.language))).finished s.exactPhrase false, c) := by
  have hne : ws.map Expr.word ≠ [] := by simpa using hws
  have hwording : (Expr.group (ws.map .word)).IsWording := all_words rfl fun _ _ => rfl
  have hfilled : (Expr.group (ws.map .word)).Filled := all_words hne fun _ _ => trivial
  have hnames : (Expr.group (ws.map .word)).NamesNoIdentifier :=
    all_words (fun v hv => by cases hv) fun w hw v hv => by
      cases hv
      exact (hwords w hw).pattern
  have hmarkers : (Pass.markers s.markers).run (.group (ws.map .word)) c =
      (some (.group (ws.map .word)), c) := by
    refine Pass.parentsFirst_eq_self (p := .markers s.markers) (all_words ?_ fun w hw => ?_) [] c
    · exact ⟨hne, fun _ _ => rfl⟩
    · refine ⟨trivial, fun parents c => ?_⟩
      have hkeep : s.markers.transform (.word w) parents c = (.keep (.word w), c) := by
        simp [MarkerSettings.transform, (hwords w hw).marker]
      exact hkeep
  have hunescape : ∀ w ∈ ws, unescape w = w := fun w hw => (hwords w hw).unescape
  rw [passes_eq_append hstages, runPasses_cons, s.sorting.run_of_isWording c hwording hfilled,
    runPasses_cons, s.fields.run_of_isWording c hwording hfilled, runPasses_cons, hmarkers,
    runPasses_cons, s.identifiers.run_of_isWording c hwording hfilled hnames, runPasses_append,
    runPasses_wideningPasses c hws hunescape, runPasses_finishingPasses]

end Settings

end SearchQuery
