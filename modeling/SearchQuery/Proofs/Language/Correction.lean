import Mathlib.Data.List.Induction
import Mathlib.Order.Bounds.Defs
import SearchQuery.Language.Speller

/-!
# Which correction a word gets

The words of a dictionary are searched in order, and a word replaces the best one so far only if it
is more frequent. So the best word of all is the first of the most frequent ones, and a correction
can be told from the list of words that the dictionary was made of, without the search.

## The number of edits

One edit is tried before two. A word at one edit is also within two, so the second search looks at
all words that the first one has looked at. It is only made when there are none of those, which is
why a rare word at one edit is preferred to a frequent one at two.

## Main definitions

* `Speller.frequency?` — the frequency of a word in the list that a dictionary is made of
* `Speller.Near` — words that differ by at most so many edits
* `Speller.IsTop` — the first of the most frequent entries
* `Speller.IsBest` — the best word that is near
* `Speller.Reaches` — a number of edits within which there is a word
* `Speller.IsExcluded` — words that are not corrected

## Main results

* `Speller.get?_ofEntries` — what a dictionary knows
* `Speller.foldl_better_eq_some_iff` — what a search finds
* `Speller.correct?_ofEntries` — which words are corrected, and to what
-/

namespace SearchQuery.Language

namespace Speller

variable {entries : List (String × Nat)} {edits : Nat} {word best : String}

/-! ### Frequencies -/

/-- The highest frequency that the list has for a word, in whatever case. -/
def frequency? (entries : List (String × Nat)) (word : String) : Option Nat :=
  ((entries.filter fun entry => Text.lower entry.1 = word).map (·.2)).max?

theorem sorted_words (entries : List (String × Nat)) : (ofEntries entries).words.Sorted :=
  List.foldlRecOn (motive := NameTable.Sorted) entries _ List.Pairwise.nil
    fun _ hsorted _ _ => NameTable.sorted_update hsorted

theorem foldl_max_eq_max? (frequencies : List Nat) (known : Option Nat) :
    frequencies.foldl (fun highest n => some (max (highest.getD 0) n)) known =
      (known.toList ++ frequencies).max? := by
  induction frequencies generalizing known with
  | nil => cases known <;> rfl
  | cons n frequencies ih =>
    rw [List.foldl_cons, ih]
    cases known <;>
      simp only [Option.getD_none, Option.getD_some, Option.toList_none, Option.toList_some,
        List.max?_cons', List.nil_append, List.cons_append, List.foldl_cons, Nat.zero_max]

/-- **What a dictionary knows** are the words of its list in lowercase, with the highest of their
frequencies. -/
theorem get?_ofEntries : (ofEntries entries).words.get? word = frequency? entries word := by
  rw [ofEntries, NameTable.get?_foldl_update List.Pairwise.nil, NameTable.get?_nil, frequency?]
  exact List.foldl_map.symm.trans (foldl_max_eq_max? _ none)

/-! ### The search -/

/-- The first of the most frequent entries. -/
def IsTop (near : NameTable Nat) (top : String × Nat) : Prop :=
  top ∈ near ∧ ∀ e ∈ near, e.2 < top.2 ∨ e.2 = top.2 ∧ top.1 ≤ e.1

theorem IsTop.eq {near : NameTable Nat} {a b : String × Nat} (ha : IsTop near a)
    (hb : IsTop near b) : a = b := by
  rcases ha.2 b hb.1 with hlt | ⟨heq, hab⟩
  · rcases hb.2 a ha.1 with hlt' | ⟨heq', -⟩ <;> omega
  · rcases hb.2 a ha.1 with hlt' | ⟨-, hba⟩
    · omega
    · exact Prod.ext (String.le_antisymm hab hba) heq.symm

/-- A further entry whose word comes after all others takes the place of the best one if it is more
frequent. -/
theorem exists_better_eq_some {near : NameTable Nat} {top e : String × Nat} (htop : IsTop near top)
    (hlast : ∀ e' ∈ near, e'.1 < e.1) :
    ∃ top', better (some top) e = some top' ∧ IsTop (near ++ [e]) top' := by
  by_cases hlt : top.2 < e.2
  · refine ⟨e, by simp [better, hlt], by simp, fun e' he' => ?_⟩
    rcases List.mem_append.1 he' with hmem | hmem
    · rcases htop.2 e' hmem with hlt' | ⟨heq, -⟩ <;> omega
    · cases List.mem_singleton.1 hmem
      exact .inr ⟨rfl, String.le_refl _⟩
  · refine ⟨top, by simp [better, hlt], by simp [htop.1], fun e' he' => ?_⟩
    rcases List.mem_append.1 he' with hmem | hmem
    · exact htop.2 e' hmem
    · cases List.mem_singleton.1 hmem
      rcases Nat.lt_or_eq_of_le (Nat.le_of_not_lt hlt) with hlt' | heq
      · exact .inl hlt'
      · exact .inr ⟨heq, String.not_lt.1 (String.lt_asymm (hlast top htop.1))⟩

/-- A search of entries in order finds the first of the most frequent ones. -/
theorem exists_foldl_better (near : NameTable Nat) (hsorted : near.Sorted) (hne : near ≠ []) :
    ∃ top, near.foldl better none = some top ∧ IsTop near top := by
  induction near using List.reverseRecOn with
  | nil => exact absurd rfl hne
  | append_singleton near e ih =>
    obtain ⟨hfront, -, hlast⟩ := List.pairwise_append.1 hsorted
    rw [List.foldl_append, List.foldl_cons, List.foldl_nil]
    by_cases hnil : near = []
    · subst hnil
      exact ⟨e, rfl, by simp [IsTop]⟩
    · obtain ⟨top, htop, hIsTop⟩ := ih hfront hnil
      rw [htop]
      exact exists_better_eq_some hIsTop fun e' he' => hlast e' he' e List.mem_cons_self

/-- **What a search finds** is the first of the most frequent entries. -/
theorem foldl_better_eq_some_iff {near : NameTable Nat} {top : String × Nat}
    (hsorted : near.Sorted) : near.foldl better none = some top ↔ IsTop near top := by
  by_cases hnil : near = []
  · subst hnil
    simp [IsTop]
  · obtain ⟨top', htop', hIsTop⟩ := exists_foldl_better near hsorted hnil
    rw [htop', Option.some_inj]
    exact ⟨fun h => h ▸ hIsTop, hIsTop.eq⟩

theorem foldl_better_eq_none_iff {near : NameTable Nat} (hsorted : near.Sorted) :
    near.foldl better none = none ↔ near = [] := by
  constructor
  · intro h
    by_contra hne
    obtain ⟨top, htop, -⟩ := exists_foldl_better near hsorted hne
    cases htop.symm.trans h
  · rintro rfl
    rfl

/-! ### The best word that is near -/

/-- The words differ by at most so many edits. -/
def Near (edits : Nat) (word other : String) : Prop :=
  ∃ n ≤ edits, Edits n word.toList other.toList

/-- The most frequent word of the list within so many edits, the first one of those that are
equally frequent. -/
def IsBest (entries : List (String × Nat)) (edits : Nat) (word best : String) : Prop :=
  Near edits word best ∧ ∃ count, frequency? entries best = some count ∧
    ∀ other count', frequency? entries other = some count' → Near edits word other →
      count' < count ∨ count' = count ∧ best ≤ other

/-- The entries of a dictionary that a search looks at. -/
theorem mem_filter_words {e : String × Nat} :
    e ∈ (ofEntries entries).words.filter (fun e => withinEdits edits word.toList e.1.toList) ↔
      frequency? entries e.1 = some e.2 ∧ Near edits word e.1 := by
  rw [List.mem_filter, NameTable.mem_iff_get?_eq_some (sorted_words entries), get?_ofEntries,
    withinEdits_eq_true_iff, Near]

theorem bestWithin?_eq_some_iff :
    (ofEntries entries).bestWithin? edits word.toList = some best ↔
      IsBest entries edits word best := by
  rw [bestWithin?, Option.map_eq_some_iff]
  simp only [foldl_better_eq_some_iff ((sorted_words entries).filter _), IsTop, mem_filter_words]
  constructor
  · rintro ⟨⟨_, count⟩, ⟨⟨hcount, hnear⟩, hbest⟩, rfl⟩
    exact ⟨hnear, count, hcount, fun other count' hcount' hnear' =>
      hbest (other, count') ⟨hcount', hnear'⟩⟩
  · rintro ⟨hnear, count, hcount, hbest⟩
    exact ⟨(best, count), ⟨⟨hcount, hnear⟩, fun e he => hbest e.1 e.2 he.1 he.2⟩, rfl⟩

theorem bestWithin?_eq_none_iff :
    (ofEntries entries).bestWithin? edits word.toList = none ↔
      ∀ other, (frequency? entries other).isSome → ¬ Near edits word other := by
  rw [bestWithin?, Option.map_eq_none_iff,
    foldl_better_eq_none_iff ((sorted_words entries).filter _), List.eq_nil_iff_forall_not_mem]
  simp only [mem_filter_words, not_and, Option.isSome_iff_exists]
  exact ⟨fun h other ⟨count, hcount⟩ => h (other, count) hcount,
    fun h e he => h e.1 ⟨e.2, he⟩⟩

/-! ### Corrections -/

/-- One edit or two, if some word of the list is within so many. -/
def Reaches (entries : List (String × Nat)) (word : String) (edits : Nat) : Prop :=
  (edits = 1 ∨ edits = 2) ∧ ∃ other, (frequency? entries other).isSome ∧ Near edits word other

/-- Long words, words with anything but letters and known words are not corrected. -/
def IsExcluded (entries : List (String × Nat)) (word : String) : Prop :=
  maxLength < word.length ∨ (∃ c ∈ word.toList, Text.isAlphabetic c = false) ∨
    (frequency? entries word).isSome

theorem isLeast_one_iff : IsLeast {n | Reaches entries word n} 1 ↔ Reaches entries word 1 :=
  ⟨fun h => h.1, fun h => ⟨h, fun _ hn => by rcases hn.1 with rfl | rfl <;> omega⟩⟩

theorem isLeast_two_iff :
    IsLeast {n | Reaches entries word n} 2 ↔ Reaches entries word 2 ∧ ¬ Reaches entries word 1 := by
  refine ⟨fun h => ⟨h.1, fun hone => absurd (h.2 hone) (by decide)⟩, fun h => ⟨h.1, ?_⟩⟩
  rintro n hn
  rcases hn.1 with rfl | rfl
  · exact absurd hn h.2
  · exact Nat.le_refl 2

/-- The best word that is near is a word of the list that is near. -/
theorem IsBest.reaches (h : IsBest entries edits word best) (hedits : edits = 1 ∨ edits = 2) :
    Reaches entries word edits :=
  let ⟨hnear, count, hcount, _⟩ := h
  ⟨hedits, best, by simp [hcount], hnear⟩

theorem bestWithin?_eq_none_iff_reaches (hedits : edits = 1 ∨ edits = 2) :
    (ofEntries entries).bestWithin? edits word.toList = none ↔ ¬ Reaches entries word edits := by
  simp [bestWithin?_eq_none_iff, Reaches, hedits]

/-- The two searches find the best word within as few edits as reach any word. -/
theorem orElse_bestWithin?_eq_some_iff :
    ((ofEntries entries).bestWithin? 1 word.toList <|>
        (ofEntries entries).bestWithin? 2 word.toList) = some best ↔
      ∃ edits, IsLeast {n | Reaches entries word n} edits ∧ IsBest entries edits word best := by
  rw [Option.orElse_eq_orElse, Option.orElse_eq_or, Option.or_eq_some_iff,
    bestWithin?_eq_some_iff, bestWithin?_eq_some_iff, bestWithin?_eq_none_iff_reaches (.inl rfl)]
  constructor
  · rintro (hone | ⟨hnone, htwo⟩)
    · exact ⟨1, isLeast_one_iff.2 (hone.reaches (.inl rfl)), hone⟩
    · exact ⟨2, isLeast_two_iff.2 ⟨htwo.reaches (.inr rfl), hnone⟩, htwo⟩
  · rintro ⟨edits, hleast, hbest⟩
    rcases hleast.1.1 with rfl | rfl
    · exact .inl hbest
    · exact .inr ⟨(isLeast_two_iff.1 hleast).2, hbest⟩

theorem orElse_bestWithin?_eq_none_iff :
    ((ofEntries entries).bestWithin? 1 word.toList <|>
        (ofEntries entries).bestWithin? 2 word.toList) = none ↔
      ∀ edits, ¬ Reaches entries word edits := by
  rw [Option.orElse_eq_orElse, Option.orElse_eq_or, Option.or_eq_none_iff,
    bestWithin?_eq_none_iff_reaches (.inl rfl), bestWithin?_eq_none_iff_reaches (.inr rfl)]
  refine ⟨fun h edits hreaches => ?_, fun h => ⟨h 1, h 2⟩⟩
  rcases hreaches.1 with rfl | rfl
  · exact h.1 hreaches
  · exact h.2 hreaches

open Classical in
theorem correct?_ofEntries_eq :
    (ofEntries entries).correct? word =
      if IsExcluded entries (Text.lower word) then none
      else (ofEntries entries).bestWithin? 1 (Text.lower word).toList <|>
        (ofEntries entries).bestWithin? 2 (Text.lower word).toList := by
  simp only [correct?, IsExcluded, ← get?_ofEntries, Text.lower]
  simp [or_assoc]

/-- **Which words are corrected, and to what.** A word is corrected in lowercase, and only if it has
at most 32 characters, all of them letters, and is not known. If some word of the list is within one
edit of it, or else within two, the correction is the most frequent of the words within so many
edits, and the first of those that are equally frequent. Otherwise there is none. -/
theorem correct?_ofEntries (entries : List (String × Nat)) (word : String) :
    (∀ best, (ofEntries entries).correct? word = some best ↔
      ¬ IsExcluded entries (Text.lower word) ∧
        ∃ edits, IsLeast {n | Reaches entries (Text.lower word) n} edits ∧
          IsBest entries edits (Text.lower word) best) ∧
    ((ofEntries entries).correct? word = none ↔
      IsExcluded entries (Text.lower word) ∨
        ∀ edits, ¬ Reaches entries (Text.lower word) edits) := by
  rw [correct?_ofEntries_eq]
  by_cases hexcluded : IsExcluded entries (Text.lower word)
  · simp [hexcluded]
  · simp only [hexcluded, not_false_eq_true, true_and, false_or]
    exact ⟨fun best => orElse_bestWithin?_eq_some_iff, orElse_bestWithin?_eq_none_iff⟩

/-- Four entries, two of them for one word. -/
def fourEntries : List (String × Nat) := [("Rust", 1), ("rest", 3), ("crests", 9), ("RUST", 2)]

/-- A word at one edit is preferred to a more frequent one at two edits, and also to a less frequent
one at one edit. -/
theorem correct?_ofEntries_rest :
    (ofEntries fourEntries).correct? "Rst" = some "rest" ∧
      frequency? fourEntries "rust" = some 2 ∧ ¬ IsExcluded fourEntries "rst" ∧
      IsBest fourEntries 1 "rst" "rest" := by
  have hcorrect : (ofEntries fourEntries).correct? "Rst" = some "rest" := by decide +kernel
  have hlower : Text.lower "Rst" = "rst" := by decide +kernel
  have hedits : Edits 1 "rst".toList "rest".toList :=
    .keep 'r' (.insert 'e' (.keep 's' (.keep 't' .nil)))
  have hrest : Reaches fourEntries "rst" 1 :=
    ⟨.inl rfl, "rest", by decide +kernel, 1, Nat.le_refl 1, hedits⟩
  obtain ⟨hexcluded, edits, hleast, hbest⟩ :=
    ((correct?_ofEntries fourEntries "Rst").1 "rest").1 hcorrect
  rw [hlower] at hexcluded hleast hbest
  have hle : edits ≤ 1 := hleast.2 hrest
  have hone : edits = 1 := hleast.1.1.resolve_right fun htwo => by omega
  exact ⟨hcorrect, by decide +kernel, hexcluded, hone ▸ hbest⟩

end Speller

end SearchQuery.Language
