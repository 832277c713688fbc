import SearchQuery.Proofs.Token.Lexemes

/-!
# Texts of one word

A text without blanks is one word, and nothing is trimmed from it. A text without backslashes
stands for itself. A bare word without backslashes is both: it is the same text whether it is read
as a term, counted or trimmed.

## Main definitions

* `IsSteady` — the text is one word and stands for itself

## Main results

* `IsWord.isSteady` — a bare word without backslashes is steady
-/

namespace SearchQuery

namespace Text

variable {cs : List Char}

theorem splitWhere_of_forall {p : Char → Bool} (h : ∀ c ∈ cs, p c = false) :
    splitWhere p cs = [cs] := by
  induction cs with
  | nil => rfl
  | cons c cs ih =>
    rw [List.forall_mem_cons] at h
    rw [splitWhere, h.1, ih h.2]
    rfl

theorem words_of_forall (hne : cs ≠ []) (h : ∀ c ∈ cs, isBlank c = false) : words cs = [cs] := by
  rw [words, splitWhere_of_forall h]
  simp [hne]

theorem dropWhile_of_forall {p : Char → Bool} (h : ∀ c ∈ cs, p c = false) :
    cs.dropWhile p = cs := by
  cases cs with
  | nil => rfl
  | cons c cs => exact List.dropWhile_cons_of_neg (by simp [(List.forall_mem_cons.1 h).1])

theorem trim_of_forall (h : ∀ c ∈ cs, isBlank c = false) : trim cs = cs := by
  have hreverse : ∀ c ∈ cs.reverse, isBlank c = false := fun c hc => h c (List.mem_reverse.1 hc)
  rw [trim, trimEnd, dropWhile_of_forall h, dropWhile_of_forall hreverse, List.reverse_reverse]

end Text

theorem unescapeChars_of_forall {cs : List Char} (h : ∀ c ∈ cs, c ≠ '\\') :
    unescapeChars cs = cs := by
  induction cs with
  | nil => rfl
  | cons c cs ih =>
    rw [List.forall_mem_cons] at h
    cases cs with
    | nil => rfl
    | cons d cs => simp [unescapeChars, h.1, ih h.2]

/-- The text is one word, and it has no escapes. -/
structure IsSteady (v : String) : Prop where
  /-- It stands for itself. -/
  unescape : SearchQuery.unescape v = v
  /-- It is one word. -/
  wordCount : Text.wordCount v = 1
  /-- No blanks surround it. -/
  trimmed : Text.trimmed v = v

theorem TermBody.forall_isTermChar {cs : List Char} (h : TermBody cs) (hne : '\\' ∉ cs) :
    ∀ c ∈ cs, isTermChar c = true := by
  induction h with
  | nil => exact fun c hc => by cases hc
  | char hc _ ih =>
    exact List.forall_mem_cons.2 ⟨hc, ih fun h => hne (List.mem_cons_of_mem _ h)⟩
  | escape => exact absurd List.mem_cons_self hne

/-- A bare word without backslashes has no blanks. -/
theorem IsWord.isBlank_eq_false {v : String} (h : IsWord v.toList) (hne : '\\' ∉ v.toList) :
    ∀ c ∈ v.toList, Text.isBlank c = false := by
  intro c hc
  have hterm := h.body.forall_isTermChar hne c hc
  simp only [isTermChar, Bool.and_eq_true, Bool.not_eq_true'] at hterm
  exact hterm.1.1

/-- **A bare word without backslashes is steady.** -/
theorem IsWord.isSteady {v : String} (h : IsWord v.toList) (hne : '\\' ∉ v.toList) :
    IsSteady v := by
  have hchars : ∀ c ∈ v.toList, isTermChar c = true := h.body.forall_isTermChar hne
  have hblank : ∀ c ∈ v.toList, Text.isBlank c = false := h.isBlank_eq_false hne
  have hnil : v.toList ≠ [] := by
    obtain ⟨c, ds, hcs, -⟩ := h.starts
    rw [hcs]
    exact List.cons_ne_nil c ds
  refine ⟨?_, ?_, ?_⟩
  · rw [SearchQuery.unescape,
      unescapeChars_of_forall fun c hc => ne_backslash_of_isTermChar (hchars c hc),
      String.ofList_toList]
  · rw [Text.wordCount, Text.words_of_forall hnil hblank]
    rfl
  · rw [Text.trimmed, Text.trim_of_forall hblank, String.ofList_toList]

end SearchQuery
