import SearchQuery.Proofs.Pass.Conservation

/-!
# Words with alternatives

The passes that correct words and that add their other forms put a group of alternatives in the
place of a word, with the word itself as the first of them. They may run any number of times and in
any order, and what one of them has put into a group of alternatives the next one may expand again.
So words end up in groups within groups, but always in front.

## Going back

Replacing every group of alternatives by the first of them, and this one in the same way, gives a
tree without such groups. It is made up node by node, so it is the same for a tree and for what an
expanding pass leaves of it if it is for a node and its replacement, and the replacement of a word
starts with the word. Bounds of ranges, fuzzy words and whatever stands in a field are left alone by
one pass or the other; nothing has to be said about them, since what is left alone shows the same.

## Main definitions

* `Expr.original` — the tree with the first alternative in the place of all of them
* `Expr.Plain` — nothing in the tree has alternatives
* `Pass.Expands` — the passes that add alternatives to words

## Main results

* `Pass.Expands.exists_run` — one such pass leaves the original as it is
* `exists_runPasses_of_expands` — any number of them, in any order
-/

namespace SearchQuery

namespace Expr

variable {e : Expr}

mutual

/-- The tree with every group of alternatives replaced by the original of the first of them. -/
def original : Expr → Expr
  | word v => word v
  | phrase v => phrase v
  | regex v => regex v
  | doi v => doi v
  | url v => url v
  | field name body => field name (original body)
  | group operands => group (originalAll operands)
  | synonyms [] => synonyms []
  | synonyms (first :: _) => original first
  | range left right il ir => range (original left) (original right) il ir
  | boost body score => boost (original body) score
  | fuzzy term slop => fuzzy (original term) slop
  | proximity term slop => proximity (original term) slop
  | plus inner => plus (original inner)
  | minus inner => minus (original inner)

/-- The originals of the trees in a list. -/
def originalAll : List Expr → List Expr
  | [] => []
  | e :: es => original e :: originalAll es

end

theorem originalAll_eq_map (es : List Expr) : originalAll es = es.map original := by
  induction es with
  | nil => rfl
  | cons e es ih => rw [originalAll, ih, List.map_cons]

/-- Nothing in the tree is a group of alternatives. -/
def Plain (e : Expr) : Prop := e.All fun d => d.kind ≠ .synonyms

/-- A tree without alternatives is its own original. -/
theorem Plain.original_eq (h : e.Plain) : e.original = e := by
  induction h with
  | @intro e root _ ih =>
    cases e with
    | word | phrase | regex | doi | url => rfl
    | group es =>
      have hself : es.map original = es.map id := List.map_congr_left ih
      rw [original, originalAll_eq_map, hself, List.map_id]
    | synonyms => exact absurd rfl root
    | range left right il ir =>
      rw [original, ih left (by simp [children]), ih right (by simp [children])]
    | field | boost | fuzzy | proximity | plus | minus => rw [original, ih _ List.mem_cons_self]

/-- The original of a node is made up from those of its children, of which only the first one
counts in a group of alternatives. -/
theorem compositional_original : Compositional original := by
  intro e d g hd h
  cases e with
  | word | phrase | regex | doi | url =>
    cases hd
    rfl
  | group es =>
    cases eq_of_gather_eq_some (rebuild_group.symm.trans hd)
    rw [original, original, originalAll_eq_map, originalAll_eq_map]
    exact congrArg group (map_filterMap_of_view h)
  | synonyms es =>
    rw [rebuild_synonyms] at hd
    cases es with
    | nil => cases hd
    | cons first es =>
      obtain ⟨first', hfirst, hsame⟩ := h first List.mem_cons_self
      rw [List.filterMap_cons_some hfirst] at hd
      cases hd
      rw [original, original, hsame]
  | range left right il ir =>
    obtain ⟨left', hleft, hsameLeft⟩ := h left (by simp [children])
    obtain ⟨right', hright, hsameRight⟩ := h right (by simp [children])
    rw [rebuild_range, hleft, hright] at hd
    cases hd
    rw [original, original, hsameLeft, hsameRight]
  | field | boost | fuzzy | proximity | plus | minus =>
    obtain ⟨body, hbody, hsame⟩ := h _ List.mem_cons_self
    obtain ⟨body', hbody', rfl⟩ := Option.map_eq_some_iff.1 hd
    cases hbody.symm.trans hbody'
    rw [original, original, hsame]

theorem original_corrected (correct? : Corrector) (e : Expr) :
    (e.corrected correct?).original = e.original := by
  obtain h | ⟨value, better, rfl, -, -, h⟩ := e.corrected_cases correct? <;> rw [h]
  rfl

end Expr

open SearchQuery.Expr

/-! ### Replacements -/

theorem SpellingSettings.conserves_original (s : SpellingSettings) (correct? : Corrector) :
    (s.transform correct?).Conserves original := by
  intro e parents c
  obtain ⟨-, hstep⟩ | ⟨-, ⟨operands, rfl, hstep⟩ | ⟨value, -, -, hstep⟩ | ⟨-, -, hstep⟩⟩ :=
    s.transform_cases correct? e parents c <;> rw [hstep]
  · exact ⟨_, rfl, rfl⟩
  · refine ⟨_, rfl, ?_⟩
    rw [original, original, originalAll_eq_map, originalAll_eq_map, List.map_map]
    exact congrArg group (List.map_congr_left fun o _ => original_corrected correct? o)
  · exact ⟨_, rfl, original_corrected correct? _⟩
  · exact ⟨_, rfl, rfl⟩

theorem InflectionSettings.original_expand (s : InflectionSettings) (inflect? : Option Inflector)
    (value : String) : (s.expand inflect? value).original = word value := by
  obtain h | h := s.expand_cases inflect? value <;> rw [h] <;> rfl

theorem InflectionSettings.conserves_original (s : InflectionSettings)
    (engines : NameTable Inflector) : (s.transform engines).Conserves original := by
  intro e parents c
  obtain ⟨value, rfl, hstep⟩ | ⟨-, hstep⟩ | ⟨-, hstep⟩ := s.transform_cases engines e parents c <;>
    rw [hstep]
  · exact ⟨_, rfl, s.original_expand _ _⟩
  · exact ⟨_, rfl, rfl⟩
  · exact ⟨_, rfl, rfl⟩

/-! ### Passes -/

/-- The passes that add alternatives to words, with any settings and engines. -/
inductive Pass.Expands : Pass Context → Prop where
  /-- The other forms of words are added. -/
  | inflection (s : InflectionSettings) (engines : NameTable Inflector) :
      Expands (.inflection s engines)
  /-- Misspelled words are paired with their corrections. -/
  | spelling (s : SpellingSettings) (correct? : Corrector) : Expands (.spelling s correct?)

/-- **One pass leaves the original as it is**, and the record too. -/
theorem Pass.Expands.exists_run {p : Pass Context} (hp : p.Expands) {e : Expr} (he : e.Filled)
    (c : Context) : ∃ d, p.run e c = (some d, c) ∧ d.Filled ∧ d.original = e.original := by
  cases hp with
  | inflection s engines =>
    exact exists_parentsFirst_of_conserves (p := .inflection s engines) compositional_original
      (s.conserves_original engines) (s.preserves_filledIn engines) (s.keepsView engines) he [] c
  | spelling s correct? =>
    exact exists_parentsFirst_of_conserves (p := .spelling s correct?) compositional_original
      (s.conserves_original correct?) (s.preserves_filledIn correct?) (s.keepsView correct?) he [] c

theorem exists_runPasses_original {ps : List (Pass Context)} (hps : ∀ p ∈ ps, p.Expands)
    {t : Expr} (ht : t.Filled) (c : Context) :
    ∃ d, runPasses ps (some t) c = (some d, c) ∧ d.original = t.original := by
  induction ps generalizing t with
  | nil => exact ⟨t, rfl, rfl⟩
  | cons p ps ih =>
    obtain ⟨e, he, hfilled, hsame⟩ := (hps p List.mem_cons_self).exists_run ht c
    obtain ⟨d, hd, hsame'⟩ := ih (fun q hq => hps q (List.mem_cons_of_mem p hq)) hfilled
    exact ⟨d, by rw [runPasses_cons, he, hd], hsame'.trans hsame⟩

/-- **Expansion can be undone.** Whatever passes add alternatives to the words of a tree without
empty groups and without alternatives, the first alternatives of what they leave are the tree, and
the record is as it was. -/
theorem exists_runPasses_of_expands {ps : List (Pass Context)} (hps : ∀ p ∈ ps, p.Expands)
    {t : Expr} (ht : t.Filled) (hplain : t.Plain) (c : Context) :
    ∃ d, runPasses ps (some t) c = (some d, c) ∧ d.original = t := by
  obtain ⟨d, hd, hsame⟩ := exists_runPasses_original hps ht c
  exact ⟨d, hd, hsame.trans hplain.original_eq⟩

/-- Two passes at work on `serch -dog`, the second one on the alternatives of the first. -/
theorem exists_runPasses_of_expands_corrected :
    ∃ ps t d, ps = [.spelling {} fun w => if w = "serch" then some "search" else none,
        .inflection {} [("en", fun w => [w ++ "s"])]] ∧
      t = group [word "serch", minus (word "dog")] ∧
      (∀ p ∈ ps, p.Expands) ∧ t.Filled ∧ t.Plain ∧
      runPasses ps (some t) { language := some "en" } = (some d, { language := some "en" }) ∧
      d = group [synonyms [synonyms [word "serch", (word "serchs").boosted usualInflectionScore],
          synonyms [word "search", (word "searchs").boosted usualInflectionScore]],
        minus (synonyms [word "dog", (word "dogs").boosted usualInflectionScore])] ∧
      d.original = t := by
  have hexpands : ∀ p ∈ [Pass.spelling {} fun w => if w = "serch" then some "search" else none,
      .inflection {} [("en", fun w => [w ++ "s"])]], p.Expands := by
    simp only [List.forall_mem_cons, List.not_mem_nil, false_imp_iff, implies_true, and_true]
    exact ⟨.spelling _ _, .inflection _ _⟩
  have hfilled : (group [word "serch", minus (word "dog")]).Filled := by
    simp [Filled, HasOperands]
  have hplain : (group [word "serch", minus (word "dog")]).Plain := by
    simp [Plain, kind]
  have hspelling : (Pass.spelling {} fun w => if w = "serch" then some "search" else none).run
      (group [word "serch", minus (word "dog")]) { language := some "en" } =
      (some (group [synonyms [word "serch", word "search"], minus (word "dog")]),
        { language := some "en" }) := by
    with_unfolding_all rfl
  let s : InflectionSettings := {}
  let engines : NameTable Inflector := [("en", fun w => [w ++ "s"])]
  -- A word in a language with an engine, wherever it stands.
  have hword (parents : List Kind) (w : String) (hletters : w.toList.any Text.isAlphabetic = true)
      (haccent : w.toList.map plainLetter = w.toList) :
      ((Pass.inflection s engines).parentsFirst parents (word w) { language := some "en" }).1 =
        some (synonyms [word w, (word (w ++ "s")).boosted usualInflectionScore]) := by
    have hne : w ++ "s" ≠ w := fun h => by simpa using congrArg String.length h
    have hget : engines.get? "en" = some fun w => [w ++ "s"] := rfl
    refine Pass.parentsFirst_of_final rfl ?_
    simp [Pass.inflection, Pass.ofTransform, InflectionSettings.transform, hget,
      InflectionSettings.expand, InflectionSettings.forms, hletters,
      InflectionSettings.accentForms, haccent, InflectionSettings.derivedForms, hne,
      InflectionSettings.formScore, s]
  have hinflection : (Pass.inflection s engines).run
      (group [synonyms [word "serch", word "search"], minus (word "dog")])
      { language := some "en" } = (some (group [
        synonyms [synonyms [word "serch", (word "serchs").boosted usualInflectionScore],
          synonyms [word "search", (word "searchs").boosted usualInflectionScore]],
        minus (synonyms [word "dog", (word "dogs").boosted usualInflectionScore])]),
        { language := some "en" }) := by
    have hnode {e : Expr} {parents : List Kind}
        (h : (s.transform engines e parents { language := some "en" }).1 = .keep e) :
        ((Pass.inflection s engines).parentsFirst parents e { language := some "en" }).1 =
          e.rebuild fun c => ((Pass.inflection s engines).parentsFirst (parents ++ [e.kind]) c
            { language := some "en" }).1 :=
      Pass.parentsFirst_eq_rebuild (s.keepsView engines) rfl h
    refine (Pass.parentsFirst_eq (s.keepsView engines)).trans ?_
    rw [hnode rfl, rebuild_group, List.filterMap_cons, List.filterMap_cons, hnode rfl, hnode rfl,
      rebuild_synonyms, rebuild_minus, List.filterMap_cons, List.filterMap_cons,
      hword _ "serch" (by decide) (by decide), hword _ "search" (by decide) (by decide),
      hword _ "dog" (by decide) (by decide)]
    rfl
  obtain ⟨d, hd, hsame⟩ := exists_runPasses_of_expands hexpands hfilled hplain
    { language := some "en" }
  have hrun := hd
  rw [runPasses_cons, hspelling, runPasses_cons, hinflection, runPasses] at hrun
  cases hrun
  exact ⟨_, _, _, rfl, rfl, hexpands, hfilled, hplain, hd, rfl, hsame⟩

end SearchQuery
