import SearchQuery.Proofs.Syntax.RoundTrip

/-!
# Plain trees are read back

Every normal form over plain words, phrases, regular expressions and numbers is the tree of its own
text. So each of them is reached by reading some text.

## A plain word is no opening

Letters and digits may open an address: `http` and `www` do. Whether one begins at a plain word is
decided behind the word, by a point, by a colon with two slashes, or by a long s. None of these ends
a unit, and no plain tree begins with two slashes, not even a regular expression: it is not empty,
and a slash in it is written with a backslash.

## Main definitions

* `ClearOfUrls` — what may follow a plain word

## Main results

* `Expr.Normal.readable_of_plain`, `Expr.Normal.legible_of_plain` — plain trees are readable and
  legible
* `parse_text_of_plain` — plain trees are read back
-/

namespace SearchQuery

open Text

/-! ### Plain words, phrases and regular expressions are readable -/

theorem isTermChar_of_isAlphanum {c : Char} (h : c.isAlphanum = true) : isTermChar c = true :=
  forall_ascii (P := fun c => c.isAlphanum = true → isTermChar c = true) (by decide)
    (isAscii_of_isAlphanum h) h

theorem isAlphanum_of_isAlpha {c : Char} (h : c.isAlpha = true) : c.isAlphanum = true := by
  rw [Char.isAlphanum, h, Bool.true_or]

theorem isTermStart_of_isAlpha {c : Char} (h : c.isAlpha = true) : isTermStart c = true :=
  forall_ascii (P := fun c => c.isAlpha = true → isTermStart c = true) (by decide)
    (isAscii_of_isAlphanum (isAlphanum_of_isAlpha h)) h

namespace Lexicon

variable {v : String}

theorem IsPlainWord.isAlphanum (h : IsPlainWord v) : ∀ c ∈ v.toList, c.isAlphanum = true := by
  obtain ⟨⟨c, cs, hv, hc, hcs⟩, -⟩ := h
  rw [hv, List.forall_mem_cons]
  exact ⟨isAlphanum_of_isAlpha hc, hcs⟩

theorem IsPlainWord.isWord (h : IsPlainWord v) : IsWord v.toList := by
  refine ⟨?_, ?_⟩
  · rw [← List.append_nil v.toList]
    exact .append (fun c hc => isTermChar_of_isAlphanum (h.isAlphanum c hc)) .nil
  · obtain ⟨⟨c, cs, hv, hc, -⟩, -⟩ := h
    exact ⟨c, cs, hv, by rw [startsWord, isTermStart_of_isAlpha hc, Bool.true_or]⟩

theorem isLowered_of_not_isUpper {c : Char} (h : c.isAlphanum = true) (hupper : c.isUpper = false) :
    IsLowered c := by
  have hlower : c.toLower = c :=
    forall_ascii (P := fun c => c.isUpper = false → c.toLower = c) (by decide)
      (isAscii_of_isAlphanum h) hupper
  rw [← hlower]
  exact isLowered_toLower (isAscii_of_isAlphanum h)

theorem readable_name_of_plain (h : plain.name v) : readable.name v := by
  refine ⟨h.1.isWord, ?_⟩
  rw [lower, lowercase_eq_self, String.ofList_toList]
  exact fun c hc => isLowered_of_not_isUpper (h.1.isAlphanum c hc) (h.2 c hc)

theorem phraseBody_of_plain {cs : List Char} (h : ∀ c ∈ cs, isQuote c = false ∧ c ≠ '\\') :
    PhraseBody cs := by
  induction cs with
  | nil => exact .nil
  | cons c cs ih =>
    rw [List.forall_mem_cons] at h
    exact .char h.1.1 h.1.2 (ih h.2)

theorem regexBody_of_plain {cs : List Char} (h : ∀ c ∈ cs, c ≠ '\\') : RegexBody cs := by
  induction cs with
  | nil => exact .nil
  | cons c cs ih =>
    rw [List.forall_mem_cons] at h
    exact .char h.1 (ih h.2)

end Lexicon

theorem Expr.IsBound.readable_of_plain {e : Expr} (h : e.IsBound Lexicon.plain) :
    e.IsBound Lexicon.readable := by
  cases h with
  | word h => exact .word ⟨h.isWord, h.2⟩
  | phrase h => exact .phrase (Lexicon.phraseBody_of_plain h)

/-- A plain normal form is a readable one. -/
theorem Expr.Normal.readable_of_plain {e : Expr} (h : e.Normal Lexicon.plain) :
    e.Normal Lexicon.readable := by
  induction h with
  | word h => exact .word ⟨h.isWord, h.2⟩
  | reserved h => exact h.elim
  | phrase h => exact .phrase (Lexicon.phraseBody_of_plain h)
  | regex h => exact .regex (Lexicon.regexBody_of_plain h.2)
  | url h => exact h.elim
  | doi h => exact h.elim
  | field hname _ hkind ih => exact .field (Lexicon.readable_name_of_plain hname) ih hkind
  | group hne _ hlast ih => exact .group hne ih hlast
  | range hleft hright => exact .range hleft.readable_of_plain hright.readable_of_plain
  | boost _ hscore ih => exact .boost ih hscore
  | fuzzy h hslop => exact .fuzzy ⟨h.isWord, h.2⟩ hslop
  | proximity h => exact .proximity (Lexicon.phraseBody_of_plain h)
  | plus _ hkind ih => exact .plus ih hkind
  | minus _ hkind ih => exact .minus ih hkind

/-! ### Plain words begin no identifiers -/

/-- What may follow letters and digits so that they are no opening of an address. -/
def ClearOfUrls (rest : List Char) : Prop :=
  (∀ c ∈ rest.head?, c.isAlphanum = false ∧ c ≠ '.' ∧ c ≠ 'ſ') ∧
    ∀ cs, rest ≠ ':' :: '/' :: '/' :: cs

theorem ClearOfUrls.endsAt {rest : List Char} (h : ClearOfUrls rest) :
    EndsAt Char.isAlphanum rest := fun c hc => (h.1 c hc).1

theorem dropWhile_append_eq {p : Char → Bool} {cs rest : List Char} (h : ∀ c ∈ cs, p c = true)
    (hrest : EndsAt p rest) : (cs ++ rest).dropWhile p = rest := by
  rw [List.dropWhile_append_of_pos h]
  cases rest with
  | nil => rfl
  | cons c rest => rw [List.dropWhile_cons_of_neg (by simp [endsAt_cons.1 hrest])]

/-- The letters and digits at the front of an opening end at its point, its colon or its long s. -/
theorem Url.Opening.dropWhile_isAlphanum {o : List Char} (h : Url.Opening o) (rest : List Char) :
    (o ++ rest).dropWhile Char.isAlphanum = '.' :: rest ∨
      (o ++ rest).dropWhile Char.isAlphanum = ':' :: '/' :: '/' :: rest ∨
      (o ++ rest).dropWhile Char.isAlphanum = 'ſ' :: ':' :: '/' :: '/' :: rest := by
  have hmark : Char.isAlphanum '.' = false ∧ Char.isAlphanum ':' = false ∧
      Char.isAlphanum 'ſ' = false := by decide
  cases h with
  | host ha hb hc =>
    left
    simp [isAlphanum_of_isLetter (by decide) ha, isAlphanum_of_isLetter (by decide) hb,
      isAlphanum_of_isLetter (by decide) hc, hmark]
  | plain hh ht hu hp =>
    right; left
    simp [isAlphanum_of_isLetter (by decide) hh, isAlphanum_of_isLetter (by decide) ht,
      isAlphanum_of_isLetter (by decide) hu, isAlphanum_of_isLetter (by decide) hp, hmark]
  | secure hh ht hu hp hs =>
    right
    simp only [isLetterS, Bool.or_eq_true, beq_iff_eq] at hs
    rcases hs with (rfl | rfl) | rfl
    · left
      simp [isAlphanum_of_isLetter (by decide) hh, isAlphanum_of_isLetter (by decide) ht,
        isAlphanum_of_isLetter (by decide) hu, isAlphanum_of_isLetter (by decide) hp, hmark]
    · left
      simp [isAlphanum_of_isLetter (by decide) hh, isAlphanum_of_isLetter (by decide) ht,
        isAlphanum_of_isLetter (by decide) hu, isAlphanum_of_isLetter (by decide) hp, hmark]
    · right
      simp [isAlphanum_of_isLetter (by decide) hh, isAlphanum_of_isLetter (by decide) ht,
        isAlphanum_of_isLetter (by decide) hu, isAlphanum_of_isLetter (by decide) hp, hmark]

theorem beginsIdentifier_of_plain {v : String} (h : Lexicon.IsPlainWord v) {rest : List Char}
    (hrest : ClearOfUrls rest) : beginsIdentifier (v.toList ++ rest) = false := by
  have halnum := h.isAlphanum
  obtain ⟨⟨c, cs, hv, hc, -⟩, -⟩ := h
  have hdigit : c ≠ '1' := by
    rintro rfl
    exact absurd hc (by decide)
  have hdrop : (v.toList ++ rest).dropWhile Char.isAlphanum = rest :=
    dropWhile_append_eq halnum hrest.endsAt
  have hurl : readUrl? c (cs ++ rest) = none := by
    rw [readUrl?, Option.map_eq_none_iff, Option.eq_none_iff_forall_ne_some]
    intro n hn
    obtain ⟨o, rest', hcs, ho, -⟩ := Url.length?_eq_some_iff.1 hn
    rw [hv, List.cons_append, hcs] at hdrop
    rcases ho.dropWhile_isAlphanum rest' with hend | hend | hend
    · exact (hrest.1 '.' (by rw [← hdrop, hend]; rfl)).2.1 rfl
    · exact hrest.2 rest' (by rw [← hdrop, hend])
    · exact (hrest.1 'ſ' (by rw [← hdrop, hend]; rfl)).2.2 rfl
  rw [hv, List.cons_append, beginsIdentifier, hurl, readDoi?_eq_none hdigit]
  rfl

theorem Delimited.clearOfUrls {rest : List Char} (h : Delimited rest) : ClearOfUrls rest := by
  have hall : ∀ c ∈ delimiters, (c.isAlphanum = false ∧ c ≠ '.' ∧ c ≠ 'ſ') ∧ c ≠ ':' :=
    forall_mem_of_all (by decide)
  refine ⟨fun c hc => (hall c (h c hc)).1, fun cs hcs => ?_⟩
  subst hcs
  exact (hall ':' (h ':' rfl)).2 rfl

/-- The text of a plain tree begins with no two slashes. -/
theorem Expr.Normal.ne_slashes {e : Expr} (h : e.Normal Lexicon.plain) (rest cs : List Char) :
    e.chars ++ rest ≠ '/' :: '/' :: cs := by
  have hslash : ∀ c : Char, c.isAlpha = true → c ≠ '/' := by
    rintro c hc rfl
    exact absurd hc (by decide)
  have hword : ∀ {v : String} (rest : List Char), Lexicon.IsPlainWord v →
      v.toList ++ rest ≠ '/' :: '/' :: cs := by
    rintro v rest ⟨⟨c, ds, hv, hc, -⟩, -⟩ hcs
    rw [hv] at hcs
    exact hslash c hc (List.cons.inj hcs).1
  induction h generalizing rest with
  | word h => exact hword rest h
  | reserved h => exact h.elim
  | url h => exact h.elim
  | doi h => exact h.elim
  | @regex v h =>
    obtain ⟨c, ds, hv⟩ := List.exists_cons_of_ne_nil (mt String.toList_eq_nil_iff.1 h.1)
    rw [chars, hv, escapeSlashes, List.flatMap_cons]
    intro hcs
    by_cases hc : c = '/'
    · rw [if_pos hc] at hcs
      cases hcs
    · rw [if_neg hc] at hcs
      exact hc (List.cons.inj (List.cons.inj hcs).2).1
  | field hname =>
    rw [chars, List.append_assoc]
    exact hword _ hname.1
  | boost _ _ ih =>
    rw [chars, List.append_assoc]
    exact ih _
  | fuzzy h =>
    rw [chars, chars, List.append_assoc]
    exact hword _ h
  | @range left right il ir =>
    intro hcs
    cases il <;> cases hcs
  | _ => exact fun hcs => by cases hcs

theorem Expr.legibleAll_of_forall {es : List Expr} {rest : List Char} (hrest : Delimited rest)
    (h : ∀ e ∈ es, ∀ rest, Delimited rest → e.legible rest = true) :
    Expr.legibleAll rest es = true := by
  induction es with
  | nil => rfl
  | cons e es ih =>
    rw [List.forall_mem_cons] at h
    cases es with
    | nil => exact h.1 rest hrest
    | cons e' es =>
      rw [legibleAll, h.1 _ (by simp [delimiters]), ih h.2]
      · rfl
      · simp

/-- A plain name is legible before everything but two slashes. -/
theorem Expr.legible_field_of_plain {name : String} {body : Expr} {rest : List Char}
    (hname : Lexicon.IsPlainWord name) (hslashes : ∀ cs, body.chars ++ rest ≠ '/' :: '/' :: cs)
    (hbody : body.legible rest = true) : (Expr.field name body).legible rest = true := by
  have hend : endsInBlank name.toList = false := by
    rw [endsInBlank, Option.any_eq_false]
    intro c hc
    simp [isBlank_of_isAlphanum (hname.isAlphanum c (List.mem_of_getLast? hc))]
  have hcolon : ClearOfUrls (':' :: (body.chars ++ rest)) := by
    refine ⟨fun c hc => ?_, fun cs hcs => ?_⟩
    · obtain rfl : ':' = c := by simpa using hc
      decide
    · exact hslashes cs (List.cons.inj hcs).2
  have hto : (name != "to") = true := bne_iff_ne.2 hname.2.2
  rw [legible, hto, hend, beginsIdentifier_of_plain hname hcolon, hbody]
  rfl

/-- Every plain tree is legible. -/
theorem Expr.Normal.legible_of_plain {e : Expr} (h : e.Normal Lexicon.plain) {rest : List Char}
    (hrest : Delimited rest) : e.legible rest = true := by
  have hword : ∀ {v : String} {rest : List Char}, Lexicon.IsPlainWord v → Delimited rest →
      (Expr.word v).legible rest = true := by
    intro v rest hv hrest
    rw [legible, beginsIdentifier_of_plain hv hrest.clearOfUrls]
    rfl
  have hbound : ∀ {e : Expr} {rest : List Char}, e.IsBound Lexicon.plain → Delimited rest →
      e.legible rest = true := by
    intro e rest he hrest
    cases he with
    | word h => exact hword h hrest
    | phrase => rfl
  induction h generalizing rest with
  | word h => exact hword h hrest
  | reserved h => exact h.elim
  | phrase | regex | url | doi => rfl
  | field hname hbody _ ih =>
    exact legible_field_of_plain hname.1 (hbody.ne_slashes rest) (ih hrest)
  | group _ _ _ ih => exact legibleAll_of_forall (by simp [delimiters]) fun e he rest => ih e he
  | @range left right il ir hleft hright =>
    rw [legible, hbound hleft (delimited_to _),
      hbound hright (delimited_cons.2 (by cases ir <;> decide))]
    rfl
  | boost _ _ ih => exact ih (by simp [delimiters])
  | fuzzy h => exact hword h (by simp [delimiters])
  | proximity => rfl
  | plus _ _ ih => exact ih hrest
  | minus _ _ ih => exact ih hrest

/-- **A plain tree is written as a text that is read as the same tree.** -/
theorem parse_text_of_plain {e : Expr} (h : e.Normal Lexicon.plain) :
    parse e.text = .ok (some e) :=
  parse_text_of_legible h.readable_of_plain (h.legible_of_plain delimited_nil)

theorem parse_text_of_plain_nested :
    (Expr.group [.plus (.field "title" (.group [.regex "a/b"])),
      .boost (.proximity (.phrase "full text") 2) .half]).Normal Lexicon.plain ∧
    parse (Expr.group [.plus (.field "title" (.group [.regex "a/b"])),
      .boost (.proximity (.phrase "full text") 2) .half]).text =
      .ok (some (.group [.plus (.field "title" (.group [.regex "a/b"])),
        .boost (.proximity (.phrase "full text") 2) .half])) := by
  have hname : Lexicon.plain.name "title" :=
    ⟨⟨⟨'t', ['i', 't', 'l', 'e'], rfl, by decide, forall_mem_of_all (by decide)⟩, by decide,
      by decide⟩, forall_mem_of_all (by decide)⟩
  have hregex : (Expr.group [.regex "a/b"]).Normal Lexicon.plain := by
    refine .group (by simp) ?_ (by simp [Expr.kind])
    rw [List.forall_mem_singleton]
    exact .regex ⟨by decide, forall_mem_of_all (by decide)⟩
  have hphrase : Lexicon.plain.phrase "full text" := by
    show ∀ c ∈ "full text".toList, isQuote c = false ∧ c ≠ '\\'
    exact forall_mem_of_all (by decide)
  have h : (Expr.group [.plus (.field "title" (.group [.regex "a/b"])),
      .boost (.proximity (.phrase "full text") 2) .half]).Normal Lexicon.plain := by
    refine .group (by simp) ?_ (by simp [Expr.kind])
    rw [List.forall_mem_cons, List.forall_mem_singleton]
    exact ⟨.plus (.field hname hregex (by simp [Expr.kind])) (by simp [Expr.kind]),
      .boost (.proximity hphrase) ⟨rfl, by decide⟩⟩
  exact ⟨h, parse_text_of_plain h⟩

end SearchQuery
