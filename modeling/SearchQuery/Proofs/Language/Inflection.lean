import Mathlib.Data.List.Basic
import SearchQuery.Language.English
import SearchQuery.Proofs.Text.Lowercase

/-!
# English number, there and back

A word that does not end in `s` is taken for a singular and has one other form, its plural. The
plural is taken for one again and has the word as its only form, unless the word has one of a few
endings.

## Where the way back is another one

The rules look at the end of a word only. The plural of most words is the word and an `s`, so what
decides about it is how the word ends. After `ie` the plural looks like that of a word in `y`. After
`sse`, `che`, `she`, `xe` and `ze` it looks like the plural of the word without the `e`. After `i`
and `u` it looks like a singular in `is` or `us`. All these words get back a word of another length
or none at all, so lengths tell the two cases apart and the words themselves need not be known.

## Main definitions

* `oneWayEndings` — the endings of words whose plurals are not taken for theirs
* `IsPlural` — the three ways in which plurals are made

## Main results

* `exists_isPlural` — a word that does not end in `s` has a plural
* `singular?_append_s_iff` — the singular of a word with an `s` added
* `exists_englishForms_eq_singleton` — which words are the only form of their only form
-/

namespace SearchQuery.Language

/-- The endings of words whose plurals are taken for those of other words, or for singulars. -/
def oneWayEndings : List String := ["ie", "sse", "che", "she", "xe", "ze", "u", "i"]

/-! ### Endings -/

theorem dropEnding?_append (stem ending : List Char) :
    dropEnding? ending (stem ++ ending) = some stem := by
  rw [dropEnding?, if_pos (List.isSuffixOf_iff_suffix.2 (List.suffix_append stem ending)),
    List.length_append, Nat.add_sub_cancel, List.take_left]

theorem dropEnding?_eq_some_iff {ending word stem : List Char} :
    dropEnding? ending word = some stem ↔ word = stem ++ ending := by
  constructor
  · intro h
    rw [dropEnding?, Option.ite_none_right_eq_some, List.isSuffixOf_iff_suffix] at h
    obtain ⟨⟨front, rfl⟩, h⟩ := h
    rw [List.length_append, Nat.add_sub_cancel, List.take_left] at h
    rw [Option.some.inj h]
  · rintro rfl
    exact dropEnding?_append stem ending

theorem dropEnding?_eq_none_iff {ending word : List Char} :
    dropEnding? ending word = none ↔ ¬ending <:+ word := by
  rw [dropEnding?, ← List.isSuffixOf_iff_suffix]
  split <;> simp [*]

theorem endsInAny_iff {endings : List String} {word : List Char} :
    endsInAny endings word = true ↔ ∃ ending ∈ endings, ending.toList <:+ word := by
  simp only [endsInAny, List.any_eq_true, List.isSuffixOf_iff_suffix]

theorem append_suffix_append_iff {ending word : List Char} (added : List Char) :
    ending ++ added <:+ word ++ added ↔ ending <:+ word := by
  rw [List.suffix_append_inj_of_length_eq rfl, and_iff_left rfl]

/-- The endings of a word with something added. -/
theorem endsInAny_append_iff (endings : List String) (added : String) {word : List Char} :
    endsInAny (endings.map (· ++ added)) (word ++ added.toList) = true ↔
      ∃ ending ∈ endings, ending.toList <:+ word := by
  simp only [endsInAny_iff, List.mem_map, exists_exists_and_eq_and, String.toList_append,
    append_suffix_append_iff]

/-- A word ends in what its ending ends in. -/
theorem getLast?_of_suffix {ending word : List Char} (hne : ending ≠ []) (h : ending <:+ word) :
    word.getLast? = ending.getLast? := by
  obtain ⟨stem, rfl⟩ := h
  exact List.getLast?_append_of_ne_nil stem hne

theorem not_endsInAny_of_not_s {endings : List String} {word : List Char}
    (hendings : ∀ ending ∈ endings, ['s'] <:+ ending.toList) (h : ¬['s'] <:+ word) :
    ¬endsInAny endings word = true := by
  rw [endsInAny_iff]
  rintro ⟨ending, hmem, hword⟩
  exact h ((hendings ending hmem).trans hword)

/-! ### Plurals -/

/-- The endings after which the plural has an `e`, apart from `s`. -/
def hissingEndings : List String := ["x", "z", "ch", "sh"]

/-- The plural of a word that does not end in `s`. -/
inductive IsPlural : List Char → List Char → Prop where
  /-- A `y` after a consonant changes. -/
  | consonant {stem : List Char} (h : endsInConsonant stem = true) :
      IsPlural (stem ++ ['y']) (stem ++ "ies".toList)
  /-- After a hissing sound an `e` stands before the `s`. -/
  | hissing {word : List Char} (h : ∃ ending ∈ hissingEndings, ending.toList <:+ word) :
      IsPlural word (word ++ "es".toList)
  /-- In all other cases an `s` is added. -/
  | regular {word : List Char} (hhissing : ¬∃ ending ∈ hissingEndings, ending.toList <:+ word)
      (hvowel : ∀ stem, word = stem ++ ['y'] → endsInConsonant stem = false) :
      IsPlural word (word ++ ['s'])

theorem singular?_of_not_s {word : List Char} (h : ¬['s'] <:+ word) : singular? word = none := by
  have hies : dropEnding? "ies".toList word = none :=
    dropEnding?_eq_none_iff.2 fun hword => h (List.IsSuffix.trans (by decide) hword)
  rw [singular?, hies]
  dsimp only
  rw [if_neg (not_endsInAny_of_not_s (by decide) h),
    if_neg (not_endsInAny_of_not_s (by decide) h), dropEnding?_eq_none_iff]
  exact h

/-- **A word that does not end in `s` has a plural.** -/
theorem exists_isPlural {word : List Char} (h : ¬['s'] <:+ word) :
    ∃ p, plural? word = some p ∧ IsPlural word p := by
  have hhissing : endsInAny ["s", "x", "z", "ch", "sh"] word = true ↔
      ∃ ending ∈ hissingEndings, ending.toList <:+ word := by
    rw [endsInAny_iff, List.exists_mem_cons_iff]
    exact or_iff_right h
  have hsound (hvowel : ∀ stem, word = stem ++ ['y'] → endsInConsonant stem = false) :
      IsPlural word (if endsInAny ["s", "x", "z", "ch", "sh"] word then word ++ ['e', 's']
        else word ++ ['s']) := by
    split
    · rename_i hending
      exact .hissing (hhissing.1 hending)
    · rename_i hending
      exact .regular (fun hword => hending (hhissing.2 hword)) hvowel
  rw [plural?, if_neg (not_endsInAny_of_not_s (by decide) h)]
  dsimp only
  split
  · rename_i stem hstem
    obtain rfl := dropEnding?_eq_some_iff.1 hstem
    split
    · rename_i hconsonant
      exact ⟨_, rfl, .consonant hconsonant⟩
    · rename_i hconsonant
      refine ⟨_, rfl, hsound fun stem' hstem' => ?_⟩
      rw [← List.append_cancel_right hstem']
      exact Bool.eq_false_iff.2 hconsonant
  · rename_i hstem
    refine ⟨_, rfl, hsound fun stem hword => ?_⟩
    exact absurd ⟨stem, hword.symm⟩ (dropEnding?_eq_none_iff.1 hstem)

theorem IsPlural.length_lt {word p : List Char} (h : IsPlural word p) : word.length < p.length := by
  cases h with
  | consonant _ => simp
  | hissing _ => simp
  | regular _ _ => simp

/-- A plural is longer than its singular, whatever the singular ends in. -/
theorem length_lt_of_plural? {word p : List Char} (h : plural? word = some p) :
    word.length < p.length := by
  have hsound : word.length < (if endsInAny ["s", "x", "z", "ch", "sh"] word then
      word ++ ['e', 's'] else word ++ ['s']).length := by
    split <;> simp
  rw [plural?] at h
  split at h
  · cases h
  dsimp only at h
  split at h
  · rename_i stem hstem
    obtain rfl := dropEnding?_eq_some_iff.1 hstem
    split at h
    · obtain rfl := Option.some.inj h
      simp
    · rwa [Option.some.inj h] at hsound
  · rwa [Option.some.inj h] at hsound

/-- The letters of a plural are those of the singular, and letters that are added. -/
theorem IsPlural.isLower {word p : List Char} (h : IsPlural word p)
    (hword : ∀ c ∈ word, c.isLower = true) : ∀ c ∈ p, c.isLower = true := by
  cases h with
  | consonant _ =>
    rw [List.forall_mem_append] at hword ⊢
    exact ⟨hword.1, Text.forall_mem_of_all (by decide)⟩
  | hissing _ => exact List.forall_mem_append.2 ⟨hword, Text.forall_mem_of_all (by decide)⟩
  | regular _ _ => exact List.forall_mem_append.2 ⟨hword, Text.forall_mem_of_all (by decide)⟩

/-! ### Back to the singular -/

/-- What a word with a one-way ending ends in. -/
theorem getLast?_of_mem_oneWayEndings {ending : String} (h : ending ∈ oneWayEndings)
    {word : List Char} (hword : ending.toList <:+ word) :
    word.getLast? ∈ [some 'e', some 'i', some 'u'] := by
  have hlast : ∀ ending ∈ oneWayEndings, ending.toList ≠ [] ∧
      ending.toList.getLast? ∈ [some 'e', some 'i', some 'u'] := by decide
  rw [getLast?_of_suffix (hlast ending h).1 hword]
  exact (hlast ending h).2

/-- **The singular of a word with an `s` added** is the word, unless it has a one-way ending. -/
theorem singular?_append_s_iff {word : List Char} (h : ¬['s'] <:+ word) :
    singular? (word ++ ['s']) = some word ↔
      ¬∃ ending ∈ oneWayEndings, ending.toList <:+ word := by
  have hplural : endsInAny ["sses", "ches", "shes", "xes", "zes"] (word ++ ['s']) = true ↔
      ∃ ending ∈ ["sse", "che", "she", "xe", "ze"], ending.toList <:+ word :=
    endsInAny_append_iff ["sse", "che", "she", "xe", "ze"] "s"
  have hsingular : endsInAny ["ss", "us", "is"] (word ++ ['s']) = true ↔
      ∃ ending ∈ ["u", "i"], ending.toList <:+ word := by
    rw [← or_iff_right (a := "s".toList <:+ word) (b := ∃ ending ∈ ["u", "i"], _) h,
      ← List.exists_mem_cons_iff (fun ending : String => ending.toList <:+ word)]
    exact endsInAny_append_iff ["s", "u", "i"] "s"
  have hendings : (∃ ending ∈ oneWayEndings, ending.toList <:+ word) ↔ "ie".toList <:+ word ∨
      (∃ ending ∈ ["sse", "che", "she", "xe", "ze"], ending.toList <:+ word) ∨
      ∃ ending ∈ ["u", "i"], ending.toList <:+ word := by
    have hsplit : oneWayEndings = "ie" :: (["sse", "che", "she", "xe", "ze"] ++ ["u", "i"]) := rfl
    rw [hsplit, List.exists_mem_cons_iff]
    simp only [List.mem_append, or_and_right, exists_or]
  rw [hendings, ← hplural, ← hsingular, singular?]
  split
  · rename_i stem hies
    have heq := dropEnding?_eq_some_iff.1 hies
    obtain rfl : word = stem ++ "ie".toList := by
      rw [show stem ++ "ies".toList = stem ++ "ie".toList ++ ['s'] by simp] at heq
      exact List.append_cancel_right heq
    refine iff_of_false (fun hstem => ?_) (not_not_intro (.inl (List.suffix_append _ _)))
    obtain ⟨-, hlength⟩ := Option.ite_none_right_eq_some.1 hstem
    simpa using congrArg List.length (Option.some.inj hlength)
  rename_i hies
  have hie : ¬"ie".toList <:+ word := fun hword =>
    dropEnding?_eq_none_iff.1 hies ((append_suffix_append_iff ['s']).2 hword)
  split
  · rename_i hsound
    refine iff_of_false (fun hword => ?_) (not_not_intro (.inr (.inl hsound)))
    simpa using congrArg List.length (dropEnding?_eq_some_iff.1 hword)
  rename_i hsound
  split
  · rename_i hsingle
    exact iff_of_false (by simp) (not_not_intro (.inr (.inr hsingle)))
  · rename_i hsingle
    exact iff_of_true (dropEnding?_append word ['s'])
      (not_or.2 ⟨hie, not_or.2 ⟨hsound, hsingle⟩⟩)

/-- **Which plurals have their singular back.** -/
theorem IsPlural.singular?_eq_some_iff {word p : List Char} (hp : IsPlural word p)
    (hs : ¬['s'] <:+ word) (hlength : 3 ≤ word.length) :
    singular? p = some word ↔ ¬∃ ending ∈ oneWayEndings, ending.toList <:+ word := by
  cases hp with
  | @consonant stem _ =>
    have hstem : 2 ≤ stem.length := by simpa using hlength
    refine iff_of_true ?_ ?_
    · rw [singular?, dropEnding?_append]
      exact if_pos hstem
    · rintro ⟨ending, hending, hword⟩
      have hlast := getLast?_of_mem_oneWayEndings hending hword
      rw [List.getLast?_concat] at hlast
      exact absurd hlast (by decide)
  | hissing h =>
    have hlasts : ∀ ending ∈ hissingEndings, ending.toList ≠ [] ∧
        ending.toList.getLast? ∈ [some 'x', some 'z', some 'h'] := by decide
    obtain ⟨sound, hsound, hword⟩ := h
    have hlast := (hlasts sound hsound).2
    rw [← getLast?_of_suffix (hlasts sound hsound).1 hword] at hlast
    have hplurals : ∀ sound ∈ hissingEndings,
        sound ++ "es" ∈ ["sses", "ches", "shes", "xes", "zes"] := by decide
    have hplural : endsInAny ["sses", "ches", "shes", "xes", "zes"] (word ++ "es".toList) =
        true := by
      refine endsInAny_iff.2 ⟨sound ++ "es", hplurals sound hsound, ?_⟩
      rw [String.toList_append]
      exact (append_suffix_append_iff _).2 hword
    have hies : dropEnding? "ies".toList (word ++ "es".toList) = none := by
      refine dropEnding?_eq_none_iff.2 fun hies => ?_
      rw [show "ies".toList = ['i'] ++ "es".toList from rfl, append_suffix_append_iff] at hies
      rw [getLast?_of_suffix (by simp) hies] at hlast
      exact absurd hlast (by decide)
    refine iff_of_true ?_ ?_
    · rw [singular?, hies]
      dsimp only
      rw [if_pos hplural, dropEnding?_append]
    · rintro ⟨ending, hending, hword⟩
      have hlast' := getLast?_of_mem_oneWayEndings hending hword
      simp only [List.mem_cons, List.not_mem_nil, or_false] at hlast hlast'
      grind
  | regular _ _ => exact singular?_append_s_iff hs

/-! ### There and back -/

theorem toLower_of_isLower {c : Char} (h : c.isLower = true) : c.toLower = c := by
  have hrange : 'a'.val ≤ c.val := of_decide_eq_true (Bool.and_eq_true_iff.1 h).1
  refine dif_neg fun hupper => ?_
  exact absurd (UInt32.le_trans hrange hupper.2) (by decide)

theorem englishForms_ofList {word : List Char} (hlength : 3 ≤ word.length)
    (hletters : ∀ c ∈ word, c.isLower = true) (hstop : String.ofList word ∉ englishStopWords) :
    englishForms (String.ofList word) =
      (((singular? word <|> plural? word).filter (· != word)).map String.ofList).toList := by
  have hlower : word.map Char.toLower = word := by
    rw [List.map_congr_left fun c hc => toLower_of_isLower (hletters c hc), List.map_id']
  have halpha : ∀ c ∈ word, c.isAlpha = true := fun c hc =>
    Bool.or_eq_true_iff.2 (.inr (hletters c hc))
  have hinflected : isInflected word = true := by
    rw [isInflected]
    simp [hlength, hstop, List.all_eq_true.2 halpha]
  rw [englishForms, String.toList_ofList, hlower]
  exact if_pos hinflected

/-- The only form of a longer word is a given one only as its singular. -/
theorem forms_eq_singleton_iff {word p : List Char} (h : word.length < p.length) :
    (((singular? p <|> plural? p).filter (· != p)).map String.ofList).toList =
        [String.ofList word] ↔ singular? p = some word := by
  have hne : word ≠ p := fun heq => absurd (heq ▸ h) (Nat.lt_irrefl _)
  constructor
  · intro hforms
    rw [Option.toList_eq_singleton_iff, Option.map_eq_some_iff] at hforms
    obtain ⟨form, hform, heq⟩ := hforms
    obtain rfl := String.ofList_injective heq
    rw [Option.filter_eq_some_iff, Option.orElse_eq_orElse, Option.orElse_eq_or,
      Option.or_eq_some_iff] at hform
    obtain ⟨hsingular | ⟨-, hplural⟩, -⟩ := hform
    · exact hsingular
    · exact absurd (length_lt_of_plural? hplural) (Nat.lt_asymm h)
  · intro hsingular
    rw [hsingular]
    simp [Option.filter, hne]

/-- **English number, there and back.** A word of at least three small letters that does not end in
`s` and is no stop word has exactly one other form. If that is no stop word either, the word is its
only other form exactly if it has no one-way ending. -/
theorem exists_englishForms_eq_singleton {word : String} (hlength : 3 ≤ word.length)
    (hletters : ∀ c ∈ word.toList, c.isLower = true) (hs : ¬"s".toList <:+ word.toList)
    (hstop : word ∉ englishStopWords) :
    ∃ p, englishForms word = [p] ∧ (p ∉ englishStopWords →
      (englishForms p = [word] ↔ ∀ ending ∈ oneWayEndings, ¬ending.toList <:+ word.toList)) := by
  obtain ⟨cs, rfl⟩ : ∃ cs, word = String.ofList cs := ⟨word.toList, String.ofList_toList.symm⟩
  rw [String.length_ofList] at hlength
  simp only [String.toList_ofList] at hletters hs ⊢
  obtain ⟨p, hplural, hp⟩ := exists_isPlural hs
  have hne : p ≠ cs := fun heq => absurd (heq ▸ hp.length_lt) (Nat.lt_irrefl _)
  refine ⟨String.ofList p, ?_, fun hstop' => ?_⟩
  · rw [englishForms_ofList hlength hletters hstop, singular?_of_not_s hs]
    simp [hplural, Option.filter, hne]
  · rw [englishForms_ofList (Nat.le_trans hlength (Nat.le_of_lt hp.length_lt))
      (hp.isLower hletters) hstop', forms_eq_singleton_iff hp.length_lt,
      hp.singular?_eq_some_iff hs hlength]
    simp only [not_exists, not_and]

/-- The `y` of `query` changes, and changes back. -/
theorem exists_englishForms_eq_singleton_query :
    englishForms "query" = ["queries"] ∧ englishForms "queries" = ["query"] := by
  have hletters : ∀ c ∈ "query".toList, c.isLower = true := Text.forall_mem_of_all (by decide)
  have hstop : "query" ∉ englishStopWords := by decide +kernel
  obtain ⟨p, hp, hback⟩ :=
    @exists_englishForms_eq_singleton "query" (by decide) hletters (by decide) hstop
  have hforms : englishForms "query" = ["queries"] :=
    (@englishForms_ofList "query".toList (by decide) hletters hstop).trans (by decide)
  obtain rfl : "queries" = p := List.singleton_inj.1 (hforms.symm.trans hp)
  exact ⟨hforms, (hback (by decide +kernel)).2 (by decide)⟩

end SearchQuery.Language
