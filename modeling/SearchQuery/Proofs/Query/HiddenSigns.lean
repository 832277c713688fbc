import SearchQuery.Proofs.Document.Distribution
import SearchQuery.Proofs.Syntax.Legibility

/-!
# Queries with a sign below a field

A query whose signs do not stand directly over groups, and whose phrases have at least two words, is
a regular tree. Bringing it into the shape that the search engine takes leaves its document as it is
if and only if none of its groups has a field directly over a sign for an operand, or if it has no
document at all.

## Main results

* `Expr.Normal.regular`, `Expr.Normal.signsAreLow` — what such a query is read as
* `compile_shaped_eq_iff_of_parse` — when the two documents are the same
* `compile_shaped_ne_of_sign_in_field` — a query with two documents
-/

namespace SearchQuery

open SearchQuery.Expr

namespace Expr

variable {L : Lexicon} {e : Expr}

/-- The tree is a phrase of fewer than two words. -/
def IsShortPhrase (e : Expr) : Prop := ∃ v, e = phrase v ∧ Text.wordCount v < 2

theorem not_reaches_isShortPhrase {skips : Expr → Prop} (h : e.All fun d => d.kind ≠ .phrase) :
    ¬ e.Reaches skips IsShortPhrase := by
  intro hreaches
  obtain ⟨d, ⟨v, rfl, -⟩, hd⟩ := (hreaches.and_all h).exists
  exact hd.root rfl

theorem isShapedTerm_of_not_reaches {skips : Expr → Prop} (hvalue : e.value?.isSome = true)
    (hskips : ¬ skips e) (h : ¬ e.Reaches skips IsShortPhrase) : e.IsShapedTerm :=
  ⟨hvalue, fun v hv => Nat.le_of_not_lt fun hlt => h (.here hskips ⟨v, hv, hlt⟩)⟩

theorem IsBound.isShapedTerm (h : e.IsBound L)
    (hphrases : ¬ e.Reaches (·.kind = .proximity) IsShortPhrase) : e.IsShapedTerm := by
  cases h with
  | word | phrase => exact isShapedTerm_of_not_reaches rfl Kind.noConfusion hphrases

/-- A tree that was read is regular if its phrases are no single words. -/
theorem Normal.regular (h : e.Normal L)
    (hphrases : ¬ e.Reaches (·.kind = .proximity) IsShortPhrase) : e.Regular := by
  induction h with
  | word | reserved | phrase | regex | url | doi =>
    exact .atom (isShapedTerm_of_not_reaches rfl Kind.noConfusion hphrases)
  | @range left right il ir hleft hright =>
    have hbound (c : Expr) (hc : c ∈ (Expr.range left right il ir).children) :
        ¬ c.Reaches (·.kind = .proximity) IsShortPhrase :=
      fun h => hphrases (.there Kind.noConfusion hc h)
    exact .atom ⟨hleft.isShapedTerm (hbound left (by simp [children])),
      hright.isShapedTerm (hbound right (by simp [children]))⟩
  | fuzzy => exact .atom ⟨rfl, nofun⟩
  | proximity => exact .atom rfl
  | group hne _ _ ih =>
    exact .node rfl hne fun c hc => ih c hc fun h => hphrases (.there Kind.noConfusion hc h)
  | field _ _ _ ih | boost _ _ ih | plus _ _ ih | minus _ _ ih =>
    refine .node rfl (List.cons_ne_nil _ _) fun c hc => ?_
    cases List.mem_singleton.1 hc
    exact ih fun h => hphrases (.there Kind.noConfusion (List.mem_singleton_self _) h)

theorem IsBound.kind_ne_synonyms (h : e.IsBound L) : e.All fun d => d.kind ≠ .synonyms := by
  cases h with
  | word => exact all_word.2 Kind.noConfusion
  | phrase => exact all_phrase.2 Kind.noConfusion

/-- No alternatives are read. -/
theorem Normal.kind_ne_synonyms (h : e.Normal L) : e.All fun d => d.kind ≠ .synonyms := by
  induction h with
  | word | reserved | phrase | regex | url | doi | fuzzy | proximity => simp [kind]
  | group _ _ _ ih => exact all_group.2 ⟨Kind.noConfusion, ih⟩
  | range hleft hright =>
    exact all_range.2 ⟨Kind.noConfusion, hleft.kind_ne_synonyms, hright.kind_ne_synonyms⟩
  | field _ _ _ ih | boost _ _ ih | plus _ _ ih | minus _ _ ih => simpa [kind] using ih

theorem Normal.signsAreLow (h : e.Normal L)
    (hsigns : e.All fun d => d.kind.isSign = true → ∀ c ∈ d.children, c.kind ≠ .group) :
    e.SignsAreLow := by
  have hsynonyms := h.kind_ne_synonyms
  clear h
  induction hsigns with
  | intro root _ ih =>
    refine .intro (fun hsign c hc => ⟨root hsign c hc, (hsynonyms.child hc).root⟩) fun c hc => ?_
    exact ih c hc (hsynonyms.child hc)

end Expr

/-- **When shaping leaves the document of a query as it is.** Take a query without signs directly
over groups and with two words in each phrase that has no distance. Something is left of it in the
shape that the search engine takes. The two trees compile to the same document, or neither compiles
to one, if and only if the query does not compile or no group in it has a field directly over a sign
for an operand. -/
theorem compile_shaped_eq_iff_of_parse {query : String} {t : Expr}
    (hparse : parse query = .ok (some t))
    (hsigns : t.All fun d => d.kind.isSign = true → ∀ c ∈ d.children, c.kind ≠ .group)
    (hphrases : ¬ t.Reaches (·.kind = .proximity) IsShortPhrase) (c : Context) :
    ∃ t', (Pass.backendShape.run t c).1 = some t' ∧
      (t'.compile.toOption = t.compile.toOption ↔
        t.compile.toOption = none ∨ t.SignsInSight) := by
  have hnormal := normal_of_parse hparse
  obtain ⟨t', hshaped, hagrees⟩ :=
    (hnormal.regular hphrases).shapesAlike (hnormal.signsAreLow hsigns) none
  refine ⟨t', ?_, hagrees.document_iff⟩
  rw [run_backendShape]
  exact hshaped

/-- A requirement over a field over a group has its sign in sight, and so has an exclusion in the
group. -/
theorem compile_shaped_eq_iff_of_parse_title :
    ∃ t t', parse "+title:(rust -old) black" = .ok (some t) ∧
      (t.All fun d => d.kind.isSign = true → ∀ c ∈ d.children, c.kind ≠ .group) ∧
      ¬ t.Reaches (·.kind = .proximity) IsShortPhrase ∧
      (Pass.backendShape.run t {}).1 = some t' ∧ t.SignsInSight ∧ t.compile.toOption ≠ none ∧
      t'.compile.toOption = t.compile.toOption := by
  have hparse : parse "+title:(rust -old) black" = .ok (some (.group [
      .plus (.field "title" (.group [.word "rust", .minus (.word "old")])), .word "black"])) := by
    with_unfolding_all rfl
  have hsigns : (Expr.group [.plus (.field "title" (.group [.word "rust", .minus (.word "old")])),
      .word "black"]).All fun d => d.kind.isSign = true → ∀ c ∈ d.children, c.kind ≠ .group := by
    simp [kind, Kind.isSign, children]
  have hphrases : ¬ (Expr.group [.plus (.field "title" (.group [.word "rust",
      .minus (.word "old")])), .word "black"]).Reaches (·.kind = .proximity) IsShortPhrase := by
    exact not_reaches_isShortPhrase (by simp [kind])
  have hsight : (Expr.group [.plus (.field "title" (.group [.word "rust", .minus (.word "old")])),
      .word "black"]).SignsInSight := by
    simp [SignsInSight, HidesSign, kind, children]
  obtain ⟨t', hrun, hiff⟩ := compile_shaped_eq_iff_of_parse hparse hsigns hphrases {}
  exact ⟨_, t', hparse, hsigns, hphrases, hrun, hsight, Option.some_ne_none _, hiff.2 (.inr hsight)⟩

/-- **A query with two documents.** The field hides the sign of the first word, which is required in
the shaped tree and only counts when it matches in the tree as it was read. -/
theorem compile_shaped_ne_of_sign_in_field :
    ∃ t t' d d', parse "title:+a b" = .ok (some t) ∧
      (t.All fun d => d.kind.isSign = true → ∀ c ∈ d.children, c.kind ≠ .group) ∧
      ¬ t.Reaches (·.kind = .proximity) IsShortPhrase ∧
      (Pass.backendShape.run t {}).1 = some t' ∧ t.compile = .ok d ∧ t'.compile = .ok d' ∧
      d = .boolean [(.should, .boolean [(.must, .term "title" "a")]), (.should, .freeText "b")] ∧
      d' = .boolean [(.must, .term "title" "a"), (.should, .freeText "b")] := by
  have hparse : parse "title:+a b" =
      .ok (some (.group [.field "title" (.plus (.word "a")), .word "b"])) := by
    with_unfolding_all rfl
  refine ⟨_, .group [.plus (.field "title" (.word "a")), .word "b"], _, _, hparse, ?_, ?_, ?_, rfl,
    rfl, rfl, rfl⟩
  · simp [kind, Kind.isSign, children]
  · exact not_reaches_isShortPhrase (by simp [kind])
  · with_unfolding_all rfl

end SearchQuery
