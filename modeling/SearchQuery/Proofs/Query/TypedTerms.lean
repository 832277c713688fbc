import SearchQuery.Proofs.Pass.Retention
import SearchQuery.Proofs.Syntax.Legibility

/-!
# Typed words are searched for

Under the usual passes, in the usual order and with rejected fields read as words, a word of a query
is among the terms that the processed query asks for. Excluded words and bounds of ranges are not
asked for, and sort directives, markers and beginnings of identifiers have a meaning of their own.

## Escapes

A word with a backslash stands for a text without it, and that text is what is asked for, so the
statement is about words without backslashes. The words that are read have no blanks, apart from
escaped ones, and such a word is the same whether it is quoted, trimmed or looked up.

## Main results

* `Processed.mem_positiveTerms_iff` — what a processed query asks for, in terms of its tree
* `Expr.Normal.all_isWord` — the words of a tree that was read
* `Processor.mem_positiveTerms_of_processWith` — no typed word is lost
-/

namespace SearchQuery

open SearchQuery.Expr

/-! ### What is asked for -/

/-- A text is asked for if a node of the tree that is not excluded holds it. -/
theorem Processed.mem_positiveTerms_iff {p : Processed} {text : String} :
    text ∈ p.positiveTerms ↔ ∃ e, p.tree = some e ∧
      e.Reaches (fun d => (d.kind == .minus) = true) fun d => termText? d = some text := by
  rw [positiveTerms]
  split
  · rename_i e he
    have hvisits := @exists_mem_visits_iff (fun d => termText? d = some text) e (· == .minus)
    simp only [he, Option.some.injEq, exists_eq_left', ← hvisits]
    simp [wantedNodes]
  · rename_i hnone
    simp [hnone]

theorem Processed.mem_positiveTerms_of_asks {p : Processed} {e : Expr} {w : String}
    (hw : unescape w = w) (htree : p.tree = some e) (h : e.Asks w) : w ∈ p.positiveTerms := by
  refine mem_positiveTerms_iff.2 ⟨e, htree, h.imp (fun d hd => ?_) fun d hd => ?_⟩
  · rw [beq_iff_eq.1 hd]
    rfl
  · rcases hd with rfl | rfl
    · exact congrArg some hw
    · exact congrArg some hw

/-! ### What is read -/

theorem Expr.IsBound.all_isWord {e : Expr} (h : e.IsBound Lexicon.readable) :
    e.All fun d => ∀ v, d = Expr.word v → IsWord v.toList := by
  cases h with
  | word h =>
    rw [all_word]
    rintro v ⟨⟩
    exact h.1
  | phrase =>
    rw [all_phrase]
    rintro v ⟨⟩

/-- The words of a tree that was read have the shape of words. -/
theorem Expr.Normal.all_isWord {e : Expr} (h : e.Normal Lexicon.readable) :
    e.All fun d => ∀ v, d = Expr.word v → IsWord v.toList := by
  induction h with
  | word h =>
    rw [all_word]
    rintro v ⟨⟩
    exact h.1
  | reserved h =>
    rw [all_word]
    rintro v ⟨⟩
    exact isWord_of_reserved h
  | fuzzy h =>
    rw [all_fuzzy, all_word]
    refine ⟨nofun, ?_⟩
    rintro v ⟨⟩
    exact h.1
  | range hleft hright =>
    exact all_range.2 ⟨nofun, hleft.all_isWord, hright.all_isWord⟩
  | group _ _ _ ih => exact all_group.2 ⟨nofun, ih⟩
  | phrase | regex | url | doi | proximity => simp
  | field _ _ _ ih | boost _ _ ih | plus _ _ ih | minus _ _ ih => simpa using ih

/-! ### Queries -/

/-- **No typed word is lost.** Under the usual passes in the usual order, if rejected fields are not
dropped, a query that is read is processed, whatever the engines are. It then asks for each of its
words without a backslash that is not excluded, no bound of a range, not in a sort directive, no
marker and not the beginning of an identifier with an asterisk. -/
theorem Processor.mem_positiveTerms_of_processWith {s : Settings} (engines : Engines)
    (hstages : s.stages.tree = TreeStage.all) (hstrict : s.fields.strict = false)
    {query : String} {t : Expr} (hparse : parse (prepare s.stages.text query) = .ok (some t))
    (hint : Option String) (languages : List (String × Number.Floating)) :
    ∃ processed,
      (ofSettingsWith s engines).processWith (some query) hint languages = .ok processed ∧
      ∀ w : String,
        t.Reaches (fun d => d.kind.hides = true ∨ (s.sorting.directive? d).isSome = true)
          (· = .word w) →
        '\\' ∉ w.toList → s.markers.isMarker w = false →
        Doi.pattern? (Text.lowercase w.toList) = none → w ∈ processed.positiveTerms := by
  obtain ⟨processed, language, hrun, htree, -⟩ :=
    (ofSettingsWith s engines).exists_processWith_of_parse hparse hint languages
  refine ⟨processed, hrun, ?_⟩
  intro w hreaches hbackslash hmarker hpattern
  have hword : IsWord w.toList := by
    obtain ⟨d, rfl, hd⟩ := (hreaches.and_all (normal_of_parse hparse).all_isWord).exists
    exact hd.root w rfl
  have hleaves : s.Leaves w := ⟨hword.isSteady hbackslash, hmarker, hpattern⟩
  have hasks : t.AsksOutside (fun d => (s.sorting.directive? d).isSome) w :=
    hreaches.imp (fun _ => id) fun _ hd => .inl hd
  obtain ⟨e, he, hasks⟩ := Settings.passes_retain engines hstages hstrict hleaves hasks
    { (ofSettingsWith s engines).freshContext languages with language }
  exact Processed.mem_positiveTerms_of_asks hleaves.steady.unescape (htree.trans he) hasks

/-- Settings with one valid field, one that can be sorted by, and a synonym set. -/
def Settings.withSynonyms : Settings where
  fields := { valid := ["title"] }
  sorting := { valid := ["year"] }
  synonyms := .single ["iron oxide", "rust"] (by decide)
  stages := { text := [] }

/-- The word `rust` is asked for below a sign and among its synonyms, although it is excluded
elsewhere in the query, and `year` in a field that is no field, although it is a directive
elsewhere. -/
theorem Processor.mem_positiveTerms_of_processWith_rust :
    ∃ t processed, Settings.withSynonyms.stages.tree = TreeStage.all ∧
      Settings.withSynonyms.fields.strict = false ∧
      parse (prepare Settings.withSynonyms.stages.text
        "+(rust -(old rust)) x:year order_by:year") = .ok (some t) ∧
      (ofSettingsWith .withSynonyms {}).processWith
        (some "+(rust -(old rust)) x:year order_by:year") none [] = .ok processed ∧
      "rust" ∈ processed.positiveTerms ∧ "year" ∈ processed.positiveTerms := by
  have hstages : Settings.withSynonyms.stages.tree = TreeStage.all := rfl
  have hstrict : Settings.withSynonyms.fields.strict = false := rfl
  have hparse : parse (prepare Settings.withSynonyms.stages.text
      "+(rust -(old rust)) x:year order_by:year") =
      .ok (some (.group [
        .plus (.group [.word "rust", .minus (.group [.word "old", .word "rust"])]),
        .field "x" (.word "year"), .field "order_by" (.word "year")])) := by with_unfolding_all rfl
  obtain ⟨processed, hrun, hterms⟩ :=
    mem_positiveTerms_of_processWith {} hstages hstrict hparse none []
  refine ⟨_, processed, hstages, hstrict, hparse, hrun, hterms "rust" ?_ ?_ ?_ ?_,
    hterms "year" ?_ ?_ ?_ ?_⟩
  · refine .there (by decide) List.mem_cons_self (.there (by decide) List.mem_cons_self ?_)
    exact .there (by decide) List.mem_cons_self (.here (by decide) rfl)
  · decide
  · rfl
  · with_unfolding_all rfl
  · refine .there (by decide) (List.mem_cons_of_mem _ List.mem_cons_self) ?_
    exact .there (by decide) List.mem_cons_self (.here (by decide) rfl)
  · decide
  · rfl
  · with_unfolding_all rfl

end SearchQuery
