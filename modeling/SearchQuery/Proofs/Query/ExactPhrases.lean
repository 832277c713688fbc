import Mathlib.Algebra.GroupWithZero.Nat
import Mathlib.Algebra.Order.BigOperators.Group.List
import Mathlib.Algebra.Order.Group.Nat
import SearchQuery.Proofs.Pass.Widening
import SearchQuery.Proofs.Query.TypedTerms

/-!
# Typed words as a phrase

A query of free words is given the phrase of its words. What the phrase is made of is what the words
have become by then: each stands for the first text among its alternatives. If that is the word that
was typed, for every word, the phrase is what was typed; if one word stands for another text, so
does the phrase, and if one stands for none, there is no phrase.

## Words that are replaced

A synonym set that does not begin with the word puts its first term into the phrase. A word with a
correction is paired with it, and if it has other forms too it stands for no text.

## Main definitions

* `Expr.SearchesPhrase` — a tree has a search for a phrase with a distance
* `Settings.KeepsText` — a word stands for itself when phrases are added

## Main results

* `Settings.plainText?_widened_iff` — which words stand for themselves
* `Processor.searchesPhrase_iff_of_words` — when the typed words are searched for as a phrase
* `Processor.not_searchesPhrase_of_synonyms` — typed words that are not
-/

namespace SearchQuery

open SearchQuery.Expr

/-! ### Joined words -/

theorem count_intercalate {α : Type} [DecidableEq α] (a : α) {l : List (List α)} (hne : l ≠ []) :
    ([a].intercalate l).count a + 1 = (l.map (List.count a)).sum + l.length := by
  induction l with
  | nil => exact absurd rfl hne
  | cons x xs ih =>
    cases xs with
    | nil => simp [List.intercalate]
    | cons y ys =>
      have hrest := ih (List.cons_ne_nil _ _)
      have hjoin : [a].intercalate (x :: y :: ys) = x ++ a :: [a].intercalate (y :: ys) := by
        simp [List.intercalate]
      rw [hjoin, List.count_append, List.count_cons_self, List.map_cons, List.sum_cons,
        List.length_cons]
      omega

/-- Lists of texts that make the same text when they are joined by spaces are the same, if they are
as long and there are no spaces in the second one. -/
theorem eq_of_intercalate_eq {xs ys : List String} (hlength : xs.length = ys.length)
    (hys : ∀ y ∈ ys, ' ' ∉ y.toList) (h : " ".intercalate xs = " ".intercalate ys) : xs = ys := by
  by_cases hnil : ys = []
  · subst hnil
    exact List.length_eq_zero_iff.1 hlength
  have hne : ys.map String.toList ≠ [] := by simpa using hnil
  have hne' : xs.map String.toList ≠ [] := by
    intro hmap
    rw [List.map_eq_nil_iff.1 hmap] at hlength
    exact hnil (List.length_eq_zero_iff.1 hlength.symm)
  have hchars : [' '].intercalate (xs.map String.toList) =
      [' '].intercalate (ys.map String.toList) := by
    have hjoined := congrArg String.toList h
    rwa [String.toList_intercalate, String.toList_intercalate] at hjoined
  have hys' : ∀ cs ∈ ys.map String.toList, ' ' ∉ cs := by simpa using hys
  -- As many spaces are between the texts of both lists, so there are none in the first ones either.
  have hxs' : ∀ cs ∈ xs.map String.toList, ' ' ∉ cs := by
    have hcount := count_intercalate ' ' hne'
    have hnone : ((ys.map String.toList).map (List.count ' ')).sum = 0 := by
      refine List.sum_eq_zero fun n hn => ?_
      obtain ⟨cs, hcs, rfl⟩ := List.mem_map.1 hn
      exact List.count_eq_zero.2 (hys' cs hcs)
    rw [hchars, count_intercalate ' ' hne, hnone, List.length_map, List.length_map,
      hlength] at hcount
    have hsum : ((xs.map String.toList).map (List.count ' ')).sum = 0 := by omega
    intro cs hcs
    exact List.count_eq_zero.1 (List.sum_eq_zero_iff.1 hsum _ (List.mem_map_of_mem hcs))
  have hmap : xs.map String.toList = ys.map String.toList := by
    rw [← List.splitOn_intercalate ' ' hxs' hne', hchars, List.splitOn_intercalate ' ' hys' hne]
  exact List.map_injective_iff.2 (fun _ _ => String.toList_inj.1) hmap

/-! ### What words stand for -/

namespace Expr

/-- The tree has a search for the phrase with a distance. -/
def SearchesPhrase (p : String) (e : Expr) : Prop :=
  e.Reaches (fun _ => False) fun d => ∃ distance, d = .proximity (.phrase p) distance

variable {s : ExactPhraseSettings} {es : List Expr} {p : String}

theorem searchesPhrase_tidyClause (s : ExactPhraseSettings) (p : String) (n : Nat) :
    (s.tidyClause p n).SearchesPhrase p :=
  (reaches_tidyClause s p n).imp (fun _ => id) fun _ hd => ⟨s.slop, hd⟩

/-- **Which phrase a group of alternatives is searched for**: the one that its operands spell. -/
theorem searchesPhrase_finished_iff (hwording : ∀ e ∈ es, e.IsWording)
    (hphrased : ∀ e ∈ es, e.phrased s = some e) :
    (∃ e, (group es).finished s false = some e ∧ e.SearchesPhrase p) ↔
      addedPhrase? es = some p := by
  have hoperand {Q : String → Prop} {e d : Expr} (he : e ∈ es)
      (h : e.shaped.bind simplified = some d) : d.IsWordingWith s Q := by
    obtain ⟨shaped, hshaped, hsimplified⟩ := Option.bind_eq_some_iff.1 h
    exact ((hwording e he).isWordingWith.of_shaped hshaped).of_simplified hsimplified
  cases hspelled : addedPhrase? es with
  | some q =>
    rw [finished_group_of_some hspelled]
    constructor
    · rintro ⟨_, ⟨⟩, hsearches⟩
      refine congrArg some (IsWordingWith.of_reaches_proximity (s := s) (Q := (q = ·))
        (.spliceGroups fun d hd => ?_) hsearches)
      rcases List.mem_append.1 hd with hd | hd
      · obtain ⟨e, he, hd⟩ := List.mem_filterMap.1 hd
        exact hoperand he hd
      · rw [List.mem_singleton.1 hd]
        exact isWordingWith_tidyClause rfl es.length
    · rintro ⟨⟩
      have hkind : (s.tidyClause p es.length).kind ≠ .group := by
        rw [ExactPhraseSettings.tidyClause, ExactPhraseSettings.placed]
        split <;> split <;> exact Kind.noConfusion
      have hmem : s.tidyClause p es.length ∈ (s.tidyClause p es.length).operands := by
        rw [operands_of_ne_group hkind]
        exact List.mem_singleton_self _
      refine ⟨_, rfl, .there id (mem_spliceGroups.2 ⟨_, ?_, hmem⟩)
        (searchesPhrase_tidyClause s p _)⟩
      exact List.mem_append_right _ (List.mem_singleton_self _)
  | none =>
    rw [finished_group_of_none hspelled]
    refine iff_of_false ?_ (Option.some_ne_none p).symm
    rintro ⟨e, he, hsearches⟩
    cases eq_of_gather_eq_some he
    refine IsWordingWith.of_reaches_proximity (s := s) (Q := fun _ => False)
      (.spliceGroups fun d hd => ?_) hsearches
    obtain ⟨e, he, hd⟩ := List.mem_filterMap.1 hd
    rw [finished, hphrased e he] at hd
    exact hoperand he hd

/-- No phrase is added in a word or among alternatives. -/
theorem phrased_of_word_or_synonyms {e : Expr} (he : e.Filled)
    (h : e.kind = .word ∨ e.kind = .synonyms) : e.phrased s = some e := by
  rcases h with h | h
  · have hrebuild := phrased_eq_rebuild (s := s) (e := e) (by simp [h]) (by rw [h]; rfl)
    rw [hrebuild]
    cases e with
    | word v => rfl
    | _ => cases h
  · refine phrased_of_isScoped he ?_
    rw [h]
    rfl

end Expr

namespace Settings

variable (s : Settings) (engines : Engines) (language : Option String) (w : String)

/-- The word stands for itself when phrases are added. If it has a correction, no other form of it
is added; if it has none, its synonym set begins with it or it has no set. -/
def KeepsText : Prop :=
  match s.correction? engines language w with
  | some _ => s.otherForms engines language w = []
  | none => ∀ set, s.synonyms.get? w = some set → set.head? = some w

variable {s engines language w}

variable (s engines language) in
theorem inflected_eq (w : String) : s.inflected engines language w = .word w ∧
    s.otherForms engines language w = [] ∨
    s.inflected engines language w = .synonyms (.word w :: s.otherForms engines language w) ∧
      s.otherForms engines language w ≠ [] := by
  rw [inflected, otherForms, InflectionSettings.expand]
  split
  · rename_i h
    exact .inl ⟨rfl, h⟩
  · rename_i h
    exact .inr ⟨rfl, h⟩

/-- **Which words stand for themselves.** -/
theorem plainText?_widened_iff :
    (s.widened engines language w).plainText? = some w ↔ s.KeepsText engines language w := by
  rw [widened, KeepsText]
  cases s.correction? engines language w with
  | some better =>
    rcases inflected_eq s engines language w with
      ⟨hinflected, hforms⟩ | ⟨hinflected, hforms⟩
    · simp [hinflected, hforms, plainText?]
    · simp [hinflected, hforms, plainText?]
  | none =>
    cases hset : s.synonyms.get? w with
    | some set => cases set <;> simp [plainText?]
    | none =>
      rcases inflected_eq s engines language w with
        ⟨hinflected, -⟩ | ⟨hinflected, -⟩
      · simp [hinflected, plainText?]
      · simp [hinflected, plainText?]

theorem kind_widened (w : String) : (s.widened engines language w).kind = .word ∨
    (s.widened engines language w).kind = .synonyms := by
  rw [widened]
  split
  · exact .inr rfl
  · split
    · exact .inr rfl
    · rcases inflected_eq s engines language w with
        ⟨hinflected, -⟩ | ⟨hinflected, -⟩ <;> rw [hinflected]
      · exact .inl rfl
      · exact .inr rfl

/-- What becomes of a word is a tree of words, and no phrase is added in it. -/
theorem isWording_and_phrased_widened (hw : unescape w = w) :
    (s.widened engines language w).IsWording ∧
      (s.widened engines language w).phrased s.exactPhrase =
        some (s.widened engines language w) := by
  have hrun : runPasses (s.wideningPasses engines) (some (group ([w].map word))) { language } = _ :=
    runPasses_wideningPasses { language } (List.cons_ne_nil w []) (by simpa using hw)
  have hword : (group [word w]).IsWording ∧ (group [word w]).Filled := by
    simp [Filled, HasOperands]
  obtain ⟨hwording, hfilled⟩ := runPasses_preserves (fun p hp => preserves_of_mem_wideningPasses hp)
    (fun _ h => Option.some.inj h ▸ hword) (congrArg Prod.fst hrun)
  have hself := List.mem_singleton_self (s.widened engines language w)
  refine ⟨isWording_group.1 hwording _ hself, ?_⟩
  exact phrased_of_word_or_synonyms (hfilled.child hself) (kind_widened w)

/-- The words spell themselves if and only if each of them stands for itself. -/
theorem addedPhrase?_widened_iff {ws : List String} (hlength : 2 ≤ ws.length)
    (hspaces : ∀ w ∈ ws, ' ' ∉ w.toList) :
    addedPhrase? (ws.map (s.widened engines language)) = some (" ".intercalate ws) ↔
      ∀ w ∈ ws, s.KeepsText engines language w := by
  have hkeeps : (ws.map (s.widened engines language)).map plainText? = ws.map some ↔
      ∀ w ∈ ws, s.KeepsText engines language w := by
    simp [List.map_inj_left, plainText?_widened_iff]
  rw [addedPhrase?_eq_some_iff, ← hkeeps]
  constructor
  · rintro ⟨-, texts, htexts, hjoined⟩
    have hcount : texts.length = ws.length := by simpa using (congrArg List.length htexts).symm
    rwa [eq_of_intercalate_eq hcount hspaces hjoined] at htexts
  · intro htexts
    exact ⟨by simpa using hlength, ws, htexts, rfl⟩

end Settings

/-! ### Queries -/

/-- Which phrase a query of words is searched for: the one that the words spell when they are
widened. -/
theorem Processor.exists_processWith_of_words {s : Settings} (engines : Engines)
    (hstages : s.stages.tree = TreeStage.all) {query : String} {ws : List String}
    (hparse : parse (prepare s.stages.text query) = .ok (some (.group (ws.map .word))))
    (hws : ws ≠ []) (hwords : ∀ w ∈ ws, s.LeavesWord w) (hint : Option String)
    (languages : List (String × Number.Floating)) :
    ∃ processed,
      (ofSettingsWith s engines).processWith (some query) hint languages = .ok processed ∧
      ∀ p, (∃ e, processed.tree = some e ∧ e.SearchesPhrase p) ↔
        addedPhrase? (ws.map (s.widened engines processed.context.language)) = some p := by
  obtain ⟨processed, language, hrun, htree, hcontext⟩ :=
    (ofSettingsWith s engines).exists_processWith_of_parse hparse hint languages
  have hpasses : runPasses (s.passes engines) (some (.group (ws.map .word)))
      { (ofSettingsWith s engines).freshContext languages with language } = _ :=
    Settings.runPasses_words _ hstages hws hwords
  have hwidened : ∀ e ∈ ws.map (s.widened engines language),
      e.IsWording ∧ e.phrased s.exactPhrase = some e := by
    rw [List.forall_mem_map]
    exact fun w hw => Settings.isWording_and_phrased_widened (hwords w hw).unescape
  replace htree : processed.tree = _ := htree.trans (congrArg Prod.fst hpasses)
  replace hcontext : processed.context = _ := hcontext.trans (congrArg Prod.snd hpasses)
  refine ⟨processed, hrun, fun p => ?_⟩
  rw [htree, hcontext]
  exact searchesPhrase_finished_iff (fun e he => (hwidened e he).1) fun e he => (hwidened e he).2

/-- **When the typed words are searched for as a phrase.** Under the usual passes in the usual
order, whatever the settings and the engines are, a query of two or more words is processed. If the
words have no backslashes and none of them is a marker or the beginning of an identifier with an
asterisk, the phrase of the typed words is searched for with a distance if and only if each word
stands for itself when phrases are added. -/
theorem Processor.searchesPhrase_iff_of_words {s : Settings} (engines : Engines)
    (hstages : s.stages.tree = TreeStage.all) {query : String} {ws : List String}
    (hparse : parse (prepare s.stages.text query) = .ok (some (.group (ws.map .word))))
    (hlength : 2 ≤ ws.length) (hbackslash : ∀ w ∈ ws, '\\' ∉ w.toList)
    (hmarkers : ∀ w ∈ ws, s.markers.isMarker w = false)
    (hpatterns : ∀ w ∈ ws, Doi.pattern? (Text.lowercase w.toList) = none)
    (hint : Option String) (languages : List (String × Number.Floating)) :
    ∃ processed,
      (ofSettingsWith s engines).processWith (some query) hint languages = .ok processed ∧
      ((∃ e, processed.tree = some e ∧ e.SearchesPhrase (" ".intercalate ws)) ↔
        ∀ w ∈ ws, s.KeepsText engines processed.context.language w) := by
  have hword : ∀ w ∈ ws, IsWord w.toList := fun w hw =>
    ((normal_of_parse hparse).all_isWord.child (List.mem_map_of_mem hw)).root w rfl
  have hspaces : ∀ w ∈ ws, ' ' ∉ w.toList := fun w hw hspace => by
    cases (hword w hw).isBlank_eq_false (hbackslash w hw) ' ' hspace
  have hwords : ∀ w ∈ ws, s.LeavesWord w := fun w hw =>
    ⟨((hword w hw).isSteady (hbackslash w hw)).unescape, hmarkers w hw, hpatterns w hw⟩
  have hws : ws ≠ [] := List.ne_nil_of_length_pos (by omega)
  obtain ⟨processed, hrun, hsearches⟩ :=
    exists_processWith_of_words engines hstages hparse hws hwords hint languages
  exact ⟨processed, hrun,
    (hsearches _).trans (Settings.addedPhrase?_widened_iff hlength hspaces)⟩

/-- Settings with one synonym set. -/
def Settings.withSynonymSet (term : String) (terms : List String) : Settings where
  synonyms := .single (term :: terms) (by simp)
  stages := { text := [] }

/-- A word keeps its text if the set begins with it or does not have it. -/
theorem Settings.keepsText_withSynonymSet (term : String) (terms : List String)
    (language : Option String) (w : String) :
    (withSynonymSet term terms).KeepsText {} language w ↔ (w ∈ term :: terms → term = w) := by
  have hcorrection : (withSynonymSet term terms).correction? {} language w = none := by
    simp [correction?]
  have hset : (withSynonymSet term terms).synonyms.get? w =
      if w ∈ term :: terms then some (term :: terms) else none := by
    by_cases hw : w ∈ term :: terms
    · rw [if_pos hw]
      exact SynonymSets.get?_eq_some_iff.2 ⟨List.mem_singleton_self _, hw⟩
    · rw [if_neg hw]
      refine SynonymSets.get?_eq_none_iff.2 fun set hset => ?_
      rwa [List.mem_singleton.1 hset]
  rw [KeepsText, hcorrection, hset]
  simp

/-- The typed words are searched for if the synonym set of `rust` begins with it. -/
theorem Processor.searchesPhrase_iff_of_words_rust :
    ∃ processed,
      parse (prepare (Settings.withSynonymSet "rust" ["iron oxide"]).stages.text "rust removal") =
        .ok (some (.group (["rust", "removal"].map .word))) ∧
      (ofSettingsWith (.withSynonymSet "rust" ["iron oxide"]) {}).processWith
        (some "rust removal") none [] = .ok processed ∧
      ∃ e, processed.tree = some e ∧ e.SearchesPhrase (" ".intercalate ["rust", "removal"]) := by
  have hparse : parse (prepare (Settings.withSynonymSet "rust" ["iron oxide"]).stages.text
      "rust removal") = .ok (some (.group (["rust", "removal"].map .word))) := by
    with_unfolding_all rfl
  have hpatterns : ∀ w ∈ ["rust", "removal"], Doi.pattern? (Text.lowercase w.toList) = none := by
    simp only [List.forall_mem_cons, List.not_mem_nil, false_imp_iff, implies_true, and_true]
    exact ⟨by with_unfolding_all rfl, by with_unfolding_all rfl⟩
  obtain ⟨processed, hrun, hsearches⟩ := searchesPhrase_iff_of_words
    (s := .withSynonymSet "rust" ["iron oxide"]) {} rfl hparse (by decide) (by decide)
    (by decide) hpatterns none []
  refine ⟨processed, hparse, hrun, hsearches.2 fun w hw => ?_⟩
  rw [Settings.keepsText_withSynonymSet]
  revert w
  decide

/-- **Typed words that are not searched for as a phrase.** The synonym set of `rust` begins with
another term. -/
theorem Processor.not_searchesPhrase_of_synonyms :
    ∃ processed,
      parse (prepare (Settings.withSynonymSet "iron oxide" ["rust"]).stages.text "rust removal") =
        .ok (some (.group (["rust", "removal"].map .word))) ∧
      (∀ w ∈ ["rust", "removal"], '\\' ∉ w.toList ∧
        (Settings.withSynonymSet "iron oxide" ["rust"]).LeavesWord w) ∧
      (ofSettingsWith (.withSynonymSet "iron oxide" ["rust"]) {}).processWith
        (some "rust removal") none [] = .ok processed ∧
      ¬ ∃ e, processed.tree = some e ∧
        e.SearchesPhrase (" ".intercalate ["rust", "removal"]) := by
  have hparse : parse (prepare (Settings.withSynonymSet "iron oxide" ["rust"]).stages.text
      "rust removal") = .ok (some (.group (["rust", "removal"].map .word))) := by
    with_unfolding_all rfl
  have hwords : ∀ w ∈ ["rust", "removal"], '\\' ∉ w.toList ∧
      (Settings.withSynonymSet "iron oxide" ["rust"]).LeavesWord w := by
    simp only [List.forall_mem_cons, List.not_mem_nil, false_imp_iff, implies_true, and_true]
    exact ⟨⟨by decide, by decide, by decide, by with_unfolding_all rfl⟩,
      by decide, by decide, by decide, by with_unfolding_all rfl⟩
  obtain ⟨processed, hrun, hsearches⟩ := exists_processWith_of_words
    (s := .withSynonymSet "iron oxide" ["rust"]) {} rfl hparse (by decide)
    (fun w hw => (hwords w hw).2) none []
  refine ⟨processed, hparse, hwords, hrun, ?_⟩
  rw [hsearches, Settings.addedPhrase?_widened_iff (by decide) (by decide)]
  intro hkeeps
  have hkept := (Settings.keepsText_withSynonymSet _ _ _ _).1 (hkeeps "rust" (by decide))
  revert hkept
  decide

end SearchQuery
