import SearchQuery.Expr.Equality
import SearchQuery.Proofs.Syntax.RoundTrip

/-!
# When the text of a tree stands for it

A tree that was read from some text is written in a normal form of its own: names are in lowercase,
blanks are single, groups are in parentheses. Most of the time that text is read as the same tree.
This file says exactly when.

## Three ways to be lost

* A name may become the reserved word by lowercasing: `To:x` is a search in the field `to`, and
  `to:x` is no query.
* A name may end in an escaped blank if something that begins no token stood before its colon. Where
  it is written, the colon follows a blank and is passed over.
* A word or a name may become the beginning of an address or identifier, because what separated it
  from its neighbour is not written: a second blank, a quote, a letter that is lowercased.

`Expr.legible` excludes these three, and nothing else can happen.

## Marks

That an illegible tree is lost has to be seen from the tokens, without parsing them. Each token that
carries contents leaves a mark of its kind, the colon too, and the marks of the tokens that derive a
tree can be read off the tree. At the first word or name that is lost, the marks of the text differ
from those of the tree. So no derivation of these tokens yields an equal tree.

## Main definitions

* `Mark`, `marksOf`, `Expr.marks` — the marks of tokens and of trees
* `Shows` — the marks that a text begins with

## Main results

* `Derives.marks` — the tokens of a tree show its marks
* `legible_of_shows` — a tree whose text shows its marks is legible
* `parse_text_iff_legible` — the text of a tree stands for it exactly when the tree is legible
-/

namespace SearchQuery

/-! ### Marks -/

/-- What a token shows of a tree. -/
inductive Mark where
  /-- A bare word. -/
  | word
  /-- A reserved word. -/
  | reserved
  /-- A phrase. -/
  | phrase
  /-- A regular expression. -/
  | regex
  /-- An address. -/
  | url
  /-- An identifier. -/
  | doi
  /-- The colon after the name of a field. -/
  | colon
  deriving DecidableEq, Repr

/-- The mark of a lexeme. -/
def Lexeme.mark? : Lexeme → Option Mark
  | .term _ => some .word
  | .to => some .reserved
  | .phrase _ => some .phrase
  | .regex _ => some .regex
  | .url _ => some .url
  | .doi _ => some .doi
  | .colon => some .colon
  | _ => none

/-- The marks of the tokens, in order. -/
def marksOf (ts : List Token) : List Mark := ts.filterMap (·.lexeme.mark?)

@[simp] theorem marksOf_nil : marksOf [] = [] := rfl

@[simp] theorem marksOf_append (ts us : List Token) :
    marksOf (ts ++ us) = marksOf ts ++ marksOf us := List.filterMap_append

theorem marksOf_cons (t : Token) (ts : List Token) :
    marksOf (t :: ts) = t.lexeme.mark?.toList ++ marksOf ts := by
  cases h : t.lexeme.mark? <;> simp [marksOf, h]

namespace Expr

mutual

/-- The marks of the tokens that derive the tree. -/
def marks : Expr → List Mark
  | word v => [if v = "TO" ∨ v = "to" then .reserved else .word]
  | phrase _ => [.phrase]
  | regex _ => [.regex]
  | url _ => [.url]
  | doi _ => [.doi]
  | field _ body => .word :: .colon :: marks body
  | group operands => marksOfAll operands
  | synonyms alternatives => marksOfAll alternatives
  | range left right _ _ => marks left ++ .reserved :: marks right
  | boost body _ => marks body
  | fuzzy term _ => marks term
  | proximity term _ => marks term
  | plus inner => marks inner
  | minus inner => marks inner

/-- The marks of the trees, one tree after the other. -/
def marksOfAll : List Expr → List Mark
  | [] => []
  | e :: es => marks e ++ marksOfAll es

end

/-! ### Equal trees have the same marks -/

mutual

theorem same_refl : (e : Expr) → e.same e = true
  | word _ | phrase _ | regex _ | doi _ | url _ => by simp [same]
  | field _ body => by simp [same, same_refl body]
  | group operands => by simp [same, sameAll_refl operands]
  | synonyms alternatives => by simp [same, sameAll_refl alternatives]
  | range left right _ _ => by simp [same, same_refl left, same_refl right]
  | boost body _ => by simp [same, same_refl body]
  | fuzzy term _ => by simp [same, same_refl term]
  | proximity term _ => by simp [same, same_refl term]
  | plus inner => by simp [same, same_refl inner]
  | minus inner => by simp [same, same_refl inner]

theorem sameAll_refl : (es : List Expr) → sameAll es es = true
  | [] => rfl
  | e :: es => by simp [sameAll, same_refl e, sameAll_refl es]

end

mutual

theorem marks_eq_of_same : (e f : Expr) → e.same f = true → e.marks = f.marks
  | word _, f, h => by cases f <;> simp_all [same]
  | phrase _, f, h | regex _, f, h | doi _, f, h | url _, f, h => by
    cases f <;> simp_all [same, marks]
  | field _ a, f, h => by
    cases f with
    | field _ b =>
      simp only [same, Bool.and_eq_true] at h
      exact congrArg (.word :: .colon :: ·) (marks_eq_of_same a b h.2)
    | _ => cases h
  | group es, f, h => by
    cases f with
    | group fs =>
      rw [same] at h
      exact marksOfAll_eq_of_same es fs h
    | _ => cases h
  | synonyms es, f, h => by
    cases f with
    | synonyms fs =>
      rw [same] at h
      exact marksOfAll_eq_of_same es fs h
    | _ => cases h
  | range a b _ _, f, h => by
    cases f with
    | range c d _ _ =>
      simp only [same, Bool.and_eq_true] at h
      rw [marks, marks, marks_eq_of_same a c h.1.1.1, marks_eq_of_same b d h.1.1.2]
    | _ => cases h
  | boost a _, f, h => by
    cases f with
    | boost b _ =>
      simp only [same, Bool.and_eq_true] at h
      exact marks_eq_of_same a b h.1
    | _ => cases h
  | fuzzy a _, f, h => by
    cases f with
    | fuzzy b _ =>
      simp only [same, Bool.and_eq_true] at h
      exact marks_eq_of_same a b h.1
    | _ => cases h
  | proximity a _, f, h => by
    cases f with
    | proximity b _ =>
      simp only [same, Bool.and_eq_true] at h
      exact marks_eq_of_same a b h.1
    | _ => cases h
  | plus a, f, h => by
    cases f with
    | plus b =>
      rw [same] at h
      exact marks_eq_of_same a b h
    | _ => cases h
  | minus a, f, h => by
    cases f with
    | minus b =>
      rw [same] at h
      exact marks_eq_of_same a b h
    | _ => cases h

theorem marksOfAll_eq_of_same : (es fs : List Expr) → sameAll es fs = true →
    marksOfAll es = marksOfAll fs
  | [], [], _ => rfl
  | [], _ :: _, h => by cases h
  | _ :: _, [], h => by cases h
  | e :: es, f :: fs, h => by
    rw [sameAll, Bool.and_eq_true] at h
    rw [marksOfAll, marksOfAll, marks_eq_of_same e f h.1, marksOfAll_eq_of_same es fs h.2]

end

end Expr

/-! ### Tokens show their tree -/

variable {t : Token} {v : String}

theorem Bound.mark {e : Expr} (hb : Bound t e) (h : t.Readable) :
    t.lexeme.mark?.toList = e.marks := by
  cases hb with
  | word ht =>
    have hword := h.lexeme ht
    rw [ht, Expr.marks, if_neg (by simp [hword.2.1, hword.2.2])]
    rfl
  | phrase ht => rw [ht]; rfl

theorem Beside.marks {e f g : Expr} (h : Beside e f g) : g.marks = e.marks ++ f.marks := by
  cases h with
  | group => rfl
  | other => simp [Expr.marks, Expr.marksOfAll]

/-- **The tokens of a tree show its marks.** -/
theorem Derives.marks {r : Rule} {ts : List Token} {e : Expr} (h : Derives r ts e)
    (hts : ∀ t ∈ ts, t.Readable) : marksOf ts = e.marks := by
  have hterm : ∀ {t : Token} {v : String}, t.Readable → t.lexeme = .term v →
      (Expr.word v).marks = [.word] := by
    intro t v ht hv
    have hword := ht.lexeme hv
    rw [Expr.marks, if_neg (by simp [hword.2.1, hword.2.2])]
  induction h with
  | alone _ ih | bare _ ih => exact ih hts
  | beside _ _ hg ih ihs =>
    rw [List.forall_mem_append] at hts
    rw [marksOf_append, ih hts.1, ihs hts.2, hg.marks]
  | boost _ ht ih =>
    rw [List.forall_mem_append] at hts
    rw [marksOf_append, ih hts.1, marksOf_cons, ht]
    simp [Lexeme.mark?, Expr.marks]
  | plus ht _ ih | minus ht _ ih =>
    rw [List.forall_mem_cons] at hts
    rw [marksOf_cons, ih hts.2, ht]
    rfl
  | groupInParens ht _ hu ih =>
    rw [List.forall_mem_append, List.forall_mem_cons] at hts
    rw [List.cons_append, marksOf_cons, marksOf_append, ih hts.1.2, marksOf_cons, ht, hu]
    simp [Lexeme.mark?]
  | otherInParens ht _ hu _ ih =>
    rw [List.forall_mem_append, List.forall_mem_cons] at hts
    rw [List.cons_append, marksOf_cons, marksOf_append, ih hts.1.2, marksOf_cons, ht, hu]
    simp [Lexeme.mark?, Expr.marks, Expr.marksOfAll]
  | range ht hl hto hr hu =>
    simp only [marksOf_cons, ht, hto, hu, hl.mark (hts _ (by simp)), hr.mark (hts _ (by simp))]
    simp [Lexeme.mark?, Expr.marks]
  | field ht hu _ ih =>
    rw [List.forall_mem_cons, List.forall_mem_cons] at hts
    rw [marksOf_cons, marksOf_cons, ih hts.2.2, ht, hu]
    rfl
  | fuzzy ht hu =>
    have hmarks := hterm (hts _ (by simp)) ht
    rw [Expr.marks, hmarks, marksOf_cons, marksOf_cons, ht, hu]
    rfl
  | word ht =>
    rw [hterm (hts _ (by simp)) ht, marksOf_cons, ht]
    rfl
  | proximity ht hu =>
    rw [marksOf_cons, marksOf_cons, ht, hu]
    rfl
  | phrase ht | regex ht | url ht | doi ht =>
    rw [marksOf_cons, ht]
    rfl
  | @reserved t ht =>
    have hraw : t.raw = "TO" ∨ t.raw = "to" := (hts t (by simp)).lexeme ht
    rw [marksOf_cons, ht, Expr.marks, if_pos hraw]
    rfl

/-! ### Texts that show marks -/

/-- Somewhere the text is read as tokens whose marks begin with the given ones. -/
def Shows (cs : List Char) (ms : List Mark) : Prop :=
  ∃ prev position, ms <+: marksOf (tokensFrom prev position cs)

variable {cs rest : List Char} {ms ms' : List Mark} {P : List Token → Prop}

theorem Lexes.readable (h : Lexes cs rest P) :
    Lexes cs rest fun ts => P ts ∧ ∀ t ∈ ts, t.Readable := by
  intro prev position
  obtain ⟨ts, prev', position', hts, hP⟩ := h prev position
  refine ⟨ts, prev', position', hts, hP, fun t ht => ?_⟩
  have hmem : t ∈ tokensFrom prev position (cs ++ rest) := by
    rw [hts]
    exact List.mem_append_left _ ht
  exact readable_of_mem_tokensFrom hmem

/-- What is read from the front of a text shows the marks at the front. -/
theorem Shows.drop (h : Shows (cs ++ rest) (ms ++ ms')) (hlexes : Lexes cs rest P)
    (hmarks : ∀ ts, P ts → (∀ t ∈ ts, t.Readable) → marksOf ts = ms) : Shows rest ms' := by
  obtain ⟨prev, position, hprefix⟩ := h
  obtain ⟨ts, prev', position', hts, hP, hreadable⟩ := hlexes.readable prev position
  rw [hts, marksOf_append, hmarks ts hP hreadable, List.prefix_append_right_inj] at hprefix
  exact ⟨prev', position', hprefix⟩

theorem Shows.drop_isLexeme {l : Lexeme} (h : Shows (cs ++ rest) (l.mark?.toList ++ ms))
    (hlexes : Lexes cs rest (IsLexeme l)) : Shows rest ms := by
  refine h.drop hlexes ?_
  rintro ts ⟨t, rfl, ht⟩ -
  rw [marksOf_cons, ht, marksOf_nil, List.append_nil]

theorem beginsIdentifier_of_shows {m : Mark} (hword : IsWord cs)
    (h : Shows (cs ++ rest) (m :: ms)) (hurl : m ≠ .url) (hdoi : m ≠ .doi) :
    beginsIdentifier (cs ++ rest) = false := by
  rw [Bool.eq_false_iff]
  intro hbegins
  obtain ⟨c, ds, rfl, hblank⟩ := hword.exists_cons
  rw [List.cons_append] at hbegins
  obtain ⟨prev, position, hprefix⟩ := h
  obtain ⟨t, ts, hts, v, hv⟩ := tokensFrom_of_beginsIdentifier hblank hbegins prev position
  rw [List.cons_append, hts, marksOf_cons] at hprefix
  rcases hv with hv | hv
  · rw [hv] at hprefix
    exact hurl (List.cons_prefix_cons.1 hprefix).1
  · rw [hv] at hprefix
    exact hdoi (List.cons_prefix_cons.1 hprefix).1

theorem legible_word_of_shows (hword : IsWord v.toList)
    (h : Shows (v.toList ++ rest) ((Expr.word v).marks ++ ms)) :
    (Expr.word v).legible rest = true := by
  rw [Expr.legible, Bool.not_eq_true']
  refine beginsIdentifier_of_shows hword h ?_ ?_
  · split <;> simp
  · split <;> simp

theorem legible_bound_of_shows {e : Expr} (hbound : e.IsBound Lexicon.readable)
    (h : Shows (e.chars ++ rest) (e.marks ++ ms)) : e.legible rest = true := by
  cases hbound with
  | word hword => exact legible_word_of_shows hword.1 h
  | phrase => rfl

/-! ### The first mark of a tree -/

theorem Shows.eq_of_isLexeme {l : Lexeme} {m m' : Mark} (h : Shows (cs ++ rest) (m' :: ms))
    (hlexes : Lexes cs rest (IsLexeme l)) (hm : l.mark? = some m) : m' = m := by
  obtain ⟨prev, position, hprefix⟩ := h
  obtain ⟨ts, prev', position', hts, t, rfl, ht⟩ := hlexes prev position
  rw [hts, List.singleton_append, marksOf_cons, ht, hm] at hprefix
  exact (List.cons_prefix_cons.1 hprefix).1

theorem not_shows_colon_of_isWord (hword : IsWord cs) (hrest : termLength rest = 0) :
    ¬Shows (cs ++ rest) (.colon :: ms) := by
  intro h
  have hfree := beginsIdentifier_of_shows hword h (by simp) (by simp)
  have hlexes := (lexes_word hword hrest hfree).mono fun _ => IsToken.isLexeme
  rw [Lexeme.ofWord] at hlexes
  split at hlexes
  · cases h.eq_of_isLexeme hlexes rfl
  · cases h.eq_of_isLexeme hlexes rfl

theorem exists_charsOfAll_append (e : Expr) (es : List Expr) (hrest : Delimited rest) :
    ∃ rest', Expr.charsOfAll (e :: es) ++ rest = e.chars ++ rest' ∧ Delimited rest' := by
  cases es with
  | nil => exact ⟨rest, rfl, hrest⟩
  | cons e' es =>
    exact ⟨' ' :: Expr.charsOfAll (e' :: es) ++ rest, by simp [Expr.charsOfAll],
      by simp [delimiters]⟩

/-- The text of a tree shows something before any colon. -/
theorem Expr.Normal.not_shows_colon {e : Expr} (h : e.Normal Lexicon.readable)
    (hrest : Delimited rest) : ¬Shows (e.chars ++ rest) (.colon :: ms) := by
  induction h generalizing rest with
  | word h => exact not_shows_colon_of_isWord h.1 hrest.termLength_eq_zero
  | reserved h => exact not_shows_colon_of_isWord (isWord_of_reserved h) hrest.termLength_eq_zero
  | phrase h =>
    intro hshows
    cases hshows.eq_of_isLexeme (lexes_quoted h rest) rfl
  | regex h =>
    intro hshows
    cases hshows.eq_of_isLexeme ((lexes_regex h rest).mono fun _ => IsToken.isLexeme) rfl
  | url h =>
    intro hshows
    cases hshows.eq_of_isLexeme ((lexes_url h hrest).mono fun _ => IsToken.isLexeme) rfl
  | doi h =>
    intro hshows
    cases hshows.eq_of_isLexeme ((lexes_doi h hrest).mono fun _ => IsToken.isLexeme) rfl
  | field hname =>
    rw [chars, List.append_assoc]
    exact not_shows_colon_of_isWord hname.1 (termLength_colon _)
  | @group operands hne _ _ ih =>
    intro hshows
    obtain ⟨e, es, rfl⟩ := List.exists_cons_of_ne_nil hne
    rw [chars_group, List.append_assoc, List.append_assoc] at hshows
    have hinner := hshows.drop_isLexeme (l := .lparen) (lexes_lparen _)
    have hdelimited : Delimited ([')'] ++ rest) := by simp [delimiters]
    obtain ⟨rest', hcut, hrest'⟩ := exists_charsOfAll_append e es hdelimited
    rw [hcut] at hinner
    exact ih e (List.mem_cons_self ..) hrest' hinner
  | @range left right il ir hleft hright =>
    intro hshows
    rw [chars_range, List.append_assoc, List.append_assoc] at hshows
    have hinner := hshows.drop_isLexeme (l := .lbracket il) (lexes_lbracket il _)
    cases hleft with
    | word h => exact not_shows_colon_of_isWord h.1 (delimited_to _).termLength_eq_zero hinner
    | phrase h => cases hinner.eq_of_isLexeme (lexes_quoted h _) rfl
  | boost _ _ ih =>
    rw [chars, List.append_assoc]
    exact ih (by simp [delimiters])
  | fuzzy h =>
    rw [chars, chars, List.append_assoc]
    exact not_shows_colon_of_isWord h.1 (termLength_eq_zero (by decide) (by decide) _)
  | proximity h =>
    intro hshows
    rw [chars, List.append_assoc] at hshows
    cases hshows.eq_of_isLexeme (lexes_quoted h _) rfl
  | @plus inner h _ ih =>
    intro hshows
    have hsign : Shows (['+'] ++ (inner.chars ++ rest)) (.colon :: ms) := hshows
    exact ih hrest (hsign.drop_isLexeme (l := .plus) (lexes_plus (h.touches rest)))
  | @minus inner h _ ih =>
    intro hshows
    have hsign : Shows (['-'] ++ (inner.chars ++ rest)) (.colon :: ms) := hshows
    exact ih hrest (hsign.drop_isLexeme (l := .minus) (lexes_minus (h.touches rest)))

/-! ### Trees that show their marks are legible -/

theorem Shows.drop_chars {e : Expr} (h : Shows (e.chars ++ rest) (e.marks ++ ms))
    (he : e.Normal Lexicon.readable) (hrest : Delimited rest) (hlegible : e.legible rest = true) :
    Shows rest ms :=
  h.drop (lexes_chars he hrest hlegible) fun _ hderived => hderived.1.marks

theorem legibleAll_of_shows {es : List Expr} (hes : ∀ e ∈ es, e.Normal Lexicon.readable)
    (h : ∀ e ∈ es, ∀ rest ms, Delimited rest → Shows (e.chars ++ rest) (e.marks ++ ms) →
      e.legible rest = true)
    (hrest : Delimited rest)
    (hshows : Shows (Expr.charsOfAll es ++ rest) (Expr.marksOfAll es ++ ms)) :
    Expr.legibleAll rest es = true := by
  induction es with
  | nil => rfl
  | cons e es ih =>
    rw [List.forall_mem_cons] at hes h
    rw [Expr.marksOfAll, List.append_assoc] at hshows
    cases es with
    | nil => exact h.1 rest _ hrest hshows
    | cons e' es =>
      rw [Expr.charsOfAll, List.append_assoc] at hshows
      · have hdelimited : Delimited ([' '] ++ (Expr.charsOfAll (e' :: es) ++ rest)) := by
          simp [delimiters]
        have hfirst := h.1 _ _ hdelimited hshows
        have hspace : Shows ([' '] ++ (Expr.charsOfAll (e' :: es) ++ rest))
            ([] ++ (Expr.marksOfAll (e' :: es) ++ ms)) :=
          hshows.drop_chars hes.1 hdelimited hfirst
        have hothers := hspace.drop lexes_space fun ts hts _ => by rw [hts]; rfl
        rw [Expr.legibleAll, ih hes.2 h.2 hothers, Bool.and_true]
        · exact hfirst
        · simp
      · simp

theorem legible_field_of_shows {name : String} {body : Expr}
    (hname : Lexicon.readable.name name) (hbody : body.Normal Lexicon.readable)
    (hrest : Delimited rest)
    (hshows : Shows ((Expr.field name body).chars ++ rest) ((Expr.field name body).marks ++ ms))
    (h : Shows (body.chars ++ rest) (body.marks ++ ms) → body.legible rest = true) :
    (Expr.field name body).legible rest = true := by
  have htext : Shows (name.toList ++ (':' :: (body.chars ++ rest)))
      (.word :: .colon :: (body.marks ++ ms)) := by
    rw [Expr.chars, List.append_assoc] at hshows
    exact hshows
  have hfree := beginsIdentifier_of_shows hname.1 htext (by simp) (by simp)
  have hto : name ≠ "to" := by
    -- the reserved word shows another mark
    rintro rfl
    have hlexes := (lexes_word hname.1 (termLength_colon _) hfree).mono fun _ => IsToken.isLexeme
    cases htext.eq_of_isLexeme hlexes rfl
  have hend : endsInBlank name.toList = false := by
    -- without its colon the name is a word before a tree, which shows no colon first
    rw [Bool.eq_false_iff]
    intro hblank
    obtain ⟨prev, position, hprefix⟩ := htext
    obtain ⟨t, prev', position', ht, htokens⟩ :=
      tokensFrom_name_of_endsInBlank hname.1 hblank hfree prev position
    rw [htokens, marksOf_cons, ht, String.ofList_toList, ofWord_of_name hname hto] at hprefix
    exact hbody.not_shows_colon hrest ⟨prev', position', (List.cons_prefix_cons.1 hprefix).2⟩
  have hinner : Shows (body.chars ++ rest) (body.marks ++ ms) := by
    have hcolon : Shows (name.toList ++ [':'] ++ (body.chars ++ rest))
        ([.word, .colon] ++ (body.marks ++ ms)) := by
      rw [List.append_assoc]
      exact htext
    refine hcolon.drop (lexes_name hname.1 hend (hbody.touches rest) hfree) ?_
    rintro ts ⟨t, u, rfl, ht, hu⟩ -
    rw [marksOf_cons, marksOf_cons, ht, hu, String.ofList_toList, ofWord_of_name hname hto]
    rfl
  simp only [Expr.legible, Bool.and_eq_true, Bool.not_eq_true', bne_iff_ne, ne_eq]
  exact ⟨⟨⟨hto, hend⟩, hfree⟩, h hinner⟩

theorem legible_range_of_shows {left right : Expr} {il ir : Bool}
    (hleft : left.IsBound Lexicon.readable) (hright : right.IsBound Lexicon.readable)
    (hshows : Shows ((Expr.range left right il ir).chars ++ rest)
      ((Expr.range left right il ir).marks ++ ms)) :
    (Expr.range left right il ir).legible rest = true := by
  let last := if ir then ']' else '\x7d'
  rw [Expr.chars_range, List.append_assoc] at hshows
  have hbounds : Shows (left.chars ++ (" TO ".toList ++ (right.chars ++ last :: rest)))
      (left.marks ++ (.reserved :: (right.marks ++ ms))) := by
    have hinner := hshows.drop_isLexeme (l := .lbracket il) (lexes_lbracket il _)
    simpa [Expr.marks, last] using hinner
  have hlow := legible_bound_of_shows hleft hbounds
  have hto : Shows (" TO ".toList ++ (right.chars ++ last :: rest))
      (.reserved :: (right.marks ++ ms)) := by
    refine hbounds.drop (lexes_bound hleft (delimited_to _) hlow) ?_
    rintro ts ⟨t, rfl, ht⟩ hreadable
    rw [marksOf_cons, marksOf_nil, List.append_nil, ht.mark (hreadable t (by simp))]
  have hhigh := legible_bound_of_shows hright (hto.drop_isLexeme (l := .to) (lexes_to _))
  rw [Expr.legible, hlow, hhigh]
  rfl

/-- **A tree whose text shows its marks is legible.** -/
theorem legible_of_shows {e : Expr} (h : e.Normal Lexicon.readable) (hrest : Delimited rest)
    (hshows : Shows (e.chars ++ rest) (e.marks ++ ms)) : e.legible rest = true := by
  induction h generalizing rest ms with
  | word h => exact legible_word_of_shows h.1 hshows
  | reserved h => exact legible_word_of_shows (isWord_of_reserved h) hshows
  | phrase | regex | url | doi | proximity => rfl
  | field hname hbody hkind ih => exact legible_field_of_shows hname hbody hrest hshows (ih hrest)
  | @group operands hne h hlast ih =>
    rw [Expr.chars_group, List.append_assoc, List.append_assoc] at hshows
    have hinner := hshows.drop_isLexeme (l := .lparen) (lexes_lparen _)
    exact legibleAll_of_shows h (fun e he rest ms => ih e he) (by simp [delimiters]) hinner
  | range hleft hright => exact legible_range_of_shows hleft hright hshows
  | boost _ _ ih =>
    rw [Expr.chars, List.append_assoc] at hshows
    exact ih (by simp [delimiters]) hshows
  | fuzzy h =>
    rw [Expr.chars, List.append_assoc] at hshows
    exact legible_word_of_shows h.1 hshows
  | @plus inner h _ ih =>
    have hsign : Shows (['+'] ++ (inner.chars ++ rest)) (inner.marks ++ ms) := hshows
    exact ih hrest (hsign.drop_isLexeme (l := .plus) (lexes_plus (h.touches rest)))
  | @minus inner h _ ih =>
    have hsign : Shows (['-'] ++ (inner.chars ++ rest)) (inner.marks ++ ms) := hshows
    exact ih hrest (hsign.drop_isLexeme (l := .minus) (lexes_minus (h.touches rest)))

/-! ### Whole texts -/

theorem normal_of_parse {s : String} {e : Expr} (h : parse s = .ok (some e)) :
    e.Normal Lexicon.readable :=
  ((derives_of_parseTokens h).normal fun _ => readable_of_mem_tokenize).1

theorem legible_of_parse_text {e f : Expr} (h : e.Normal Lexicon.readable)
    (hparse : parse e.text = .ok (some f)) (hsame : e.same f = true) : e.legible [] = true := by
  have hmarks : marksOf (tokenize e.text) = e.marks := by
    rw [(derives_of_parseTokens hparse).marks fun _ => readable_of_mem_tokenize,
      Expr.marks_eq_of_same e f hsame]
  have hshows : Shows (e.chars ++ []) (e.marks ++ []) := by
    have htokens : e.marks ++ [] = marksOf (tokensFrom none 0 (e.chars ++ [])) := by
      rw [List.append_nil, List.append_nil, ← hmarks, tokenize, Expr.text, String.toList_ofList]
    exact ⟨none, 0, htokens ▸ List.prefix_rfl⟩
  exact legible_of_shows h delimited_nil hshows

/-- **When the text of a tree stands for it.** The text of a tree that was read is read as an equal
tree exactly when the tree is legible, and then it is read as the tree itself. -/
theorem parse_text_iff_legible {s : String} {e : Expr} (h : parse s = .ok (some e)) :
    ((∃ f, parse e.text = .ok (some f) ∧ e.same f = true) ↔ e.legible [] = true) ∧
      (parse e.text = .ok (some e) ↔ e.legible [] = true) := by
  have hnormal := normal_of_parse h
  have hback := fun hlegible => parse_text_of_legible hnormal hlegible
  refine ⟨⟨fun ⟨f, hf, hsame⟩ => legible_of_parse_text hnormal hf hsame, fun hlegible =>
    ⟨e, hback hlegible, e.same_refl⟩⟩, fun hsame => ?_, hback⟩
  exact legible_of_parse_text hnormal hsame e.same_refl

theorem parse_text_iff_legible_title :
    parse "Title:(rust  +web)" =
      .ok (some (.field "title" (.group [.word "rust", .plus (.word "web")]))) ∧
    parse (Expr.field "title" (.group [.word "rust", .plus (.word "web")])).text =
      .ok (some (.field "title" (.group [.word "rust", .plus (.word "web")]))) := by
  have h : parse "Title:(rust  +web)" =
      .ok (some (.field "title" (.group [.word "rust", .plus (.word "web")]))) := by
    with_unfolding_all rfl
  exact ⟨h, (parse_text_iff_legible h).2.2 (by decide +kernel)⟩

/-- A field that is named like the reserved word is not read back. -/
theorem not_exists_parse_text_of_field_to :
    parse "To:x" = .ok (some (.field "to" (.word "x"))) ∧
      ¬∃ f, parse (Expr.field "to" (.word "x")).text = .ok (some f) ∧
        (Expr.field "to" (.word "x")).same f = true := by
  have herror : parse (Expr.field "to" (.word "x")).text =
      .error (.unexpected ⟨.colon, ":", 2⟩) := by with_unfolding_all rfl
  refine ⟨by with_unfolding_all rfl, ?_⟩
  rintro ⟨f, hf, -⟩
  rw [herror] at hf
  cases hf

end SearchQuery
