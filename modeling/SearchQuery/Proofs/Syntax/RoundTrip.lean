import SearchQuery.Proofs.Syntax.NormalForm
import SearchQuery.Proofs.Syntax.Parsing

/-!
# Trees are read back

The text that is written for a legible tree is read as that tree.

## Tokens first, derivations on the way

The reader of tokens depends on what stands on both sides, the grammar only on the tokens. So the
induction over the tree goes through both at once: wherever the text of a tree stands before a rest
that ends it, its tokens derive the tree, and the tokens of the rest follow. The rest is arbitrary,
which is what an induction over the parts of a node needs, and reading the whole text is the case
without a rest.

A group is written from its operands and read from the right. `beside_of_parenthesized` is why
both agree: the operands after the first are read as something whose parentheses would hold just
them.

## Main definitions

* `Expr.DerivedBy` — the tokens derive the tree

## Main results

* `lexes_chars` — the text of a legible tree before a rest
* `parse_text_of_legible` — the text of a legible tree
-/

namespace SearchQuery

namespace Expr

/-- The tokens derive the tree, as a unit without boosts unless it is a boost. -/
def DerivedBy (e : Expr) (ts : List Token) : Prop :=
  Derives .boosted ts e ∧ (e.kind ≠ .boost → Derives .unary ts e)

theorem DerivedBy.of_unary {e : Expr} {ts : List Token} (h : Derives .unary ts e) :
    e.DerivedBy ts := ⟨h.bare, fun _ => h⟩

end Expr

variable {v : String} {rest : List Char}

/-! ### Leaves -/

theorem lexes_chars_word (h : IsWord v.toList) (hrest : Delimited rest)
    (hfree : beginsIdentifier (v.toList ++ rest) = false) :
    Lexes v.toList rest (Expr.word v).DerivedBy := by
  refine (lexes_word h hrest.termLength_eq_zero hfree).mono ?_
  rintro ts ⟨t, rfl, ht, hraw⟩
  rw [String.ofList_toList] at ht hraw
  rw [Lexeme.ofWord] at ht
  refine .of_unary ?_
  split at ht
  · rw [← hraw]
    exact .reserved ht
  · exact .word ht

theorem lexes_term (h : Lexicon.readable.word v) (hrest : termLength rest = 0)
    (hfree : beginsIdentifier (v.toList ++ rest) = false) :
    Lexes v.toList rest (IsLexeme (.term v)) := by
  have hword := lexes_word h.1 hrest hfree
  rw [String.ofList_toList, Lexeme.ofWord, if_neg (by simp [h.2.1, h.2.2])] at hword
  exact hword.mono fun _ => IsToken.isLexeme

theorem lexes_quoted (h : Lexicon.readable.phrase v) (rest : List Char) :
    Lexes (Expr.phrase v).chars rest (IsLexeme (.phrase v)) := by
  have hphrase := lexes_phrase h rest
  rw [String.ofList_toList] at hphrase
  exact hphrase.mono fun _ => IsToken.isLexeme

theorem lexes_bound {e : Expr} (h : e.IsBound Lexicon.readable) (hrest : Delimited rest)
    (hlegible : e.legible rest = true) :
    Lexes e.chars rest fun ts => ∃ t, ts = [t] ∧ Bound t e := by
  cases h with
  | word h =>
    refine (lexes_term h hrest.termLength_eq_zero (by simpa [Expr.legible] using hlegible)).mono ?_
    rintro ts ⟨t, rfl, ht⟩
    exact ⟨t, rfl, .word ht⟩
  | phrase h =>
    refine (lexes_quoted h rest).mono ?_
    rintro ts ⟨t, rfl, ht⟩
    exact ⟨t, rfl, .phrase ht⟩

theorem lexes_approx {d : Decimal} (hd : d.negative = false) (hrest : Delimited rest) :
    Lexes ('~' :: d.chars) rest (IsLexeme (.approx (some d))) :=
  (lexes_degree hd hrest (by decide) fun _ _ => rfl).mono fun _ => IsToken.isLexeme

theorem lexes_boost {d : Decimal} (hd : d.negative = false) (hrest : Delimited rest) :
    Lexes ('^' :: d.chars) rest (IsLexeme (.boost (some d))) :=
  (lexes_degree hd hrest (by decide) fun _ _ => rfl).mono fun _ => IsToken.isLexeme

/-- A distance is read back. -/
theorem exists_degree_digits (slop : UInt32) : ∃ d : Decimal, d.negative = false ∧
    d.chars = Number.digits slop.toNat ∧ Distance (some d) slop := by
  have hlt : slop.toNat < Decimal.coefficientBound :=
    Nat.lt_trans slop.toNat_lt (by decide)
  refine ⟨⟨false, slop.toNat, 0, hlt, by decide⟩, rfl, rfl, .whole ?_⟩
  simp [Decimal.wholePart?]

/-! ### Units side by side -/

/-- The unit on the left goes into the group that the parentheses make of the others. -/
theorem beside_of_parenthesized {e f : Expr} {es : List Expr}
    (h : parenthesized f = .group es) : Beside e f (.group (e :: es)) := by
  by_cases hkind : f.kind = .group
  · cases f with
    | group operands => exact Expr.group.inj h ▸ .group operands
    | _ => cases hkind
  · rw [parenthesized_of_ne_group hkind, Expr.group.injEq] at h
    exact h ▸ .other hkind

theorem lexes_charsOfAll {es : List Expr} (hne : es ≠ [])
    (h : ∀ e ∈ es, ∀ rest, Delimited rest → e.legible rest = true →
      Lexes e.chars rest e.DerivedBy)
    (hlast : ∀ e ∈ es.getLast?, e.kind ≠ .group) (hrest : Delimited rest)
    (hlegible : Expr.legibleAll rest es = true) :
    Lexes (Expr.charsOfAll es) rest fun ts =>
      ∃ f, Derives .expression ts f ∧ parenthesized f = .group es := by
  induction es with
  | nil => exact absurd rfl hne
  | cons e es ih =>
    rw [List.forall_mem_cons] at h
    cases es with
    | nil =>
      have hkind : e.kind ≠ .group := hlast e (by simp)
      refine (h.1 rest hrest hlegible).mono fun ts hts => ?_
      exact ⟨e, hts.1.alone, parenthesized_of_ne_group hkind⟩
    | cons e' es =>
      rw [Expr.legibleAll, Bool.and_eq_true] at hlegible
      · have hfirst : Lexes e.chars (' ' :: Expr.charsOfAll (e' :: es) ++ rest) e.DerivedBy :=
          h.1 _ (by simp [delimiters]) hlegible.1
        have hothers := ih (by simp) h.2 (by simpa using hlast) hlegible.2
        refine (hfirst.append (lexes_space.append hothers)).mono ?_
        rintro ts ⟨us, vs, rfl, hus, -, ws, rfl, rfl, f, hf, hgroup⟩
        exact ⟨_, hus.1.beside hf (beside_of_parenthesized hgroup), rfl⟩
      · simp

/-! ### Nodes -/

theorem Expr.chars_group (es : List Expr) :
    (group es).chars = ['('] ++ (charsOfAll es ++ [')']) := rfl

theorem Expr.chars_range (left right : Expr) (il ir : Bool) :
    (range left right il ir).chars = [if il then '[' else '\x7b'] ++
      (left.chars ++ (" TO ".toList ++ (right.chars ++ [if ir then ']' else '\x7d']))) := by
  simp only [chars, List.cons_append, List.append_assoc, List.nil_append]

theorem lexes_group {es : List Expr} (h : Lexes (Expr.charsOfAll es) ([')'] ++ rest) fun ts =>
      ∃ f, Derives .expression ts f ∧ parenthesized f = .group es) :
    Lexes (Expr.group es).chars rest (Expr.group es).DerivedBy := by
  rw [Expr.chars_group]
  refine ((lexes_lparen _).append (h.append (lexes_rparen rest))).mono ?_
  rintro ts ⟨us, vs, rfl, ⟨t, rfl, ht⟩, ws, xs, rfl, ⟨f, hf, hgroup⟩, u, rfl, hu⟩
  have hderives := derives_parenthesized ht hf hu
  rw [hgroup] at hderives
  exact .of_unary hderives

/-- A sign before a unit. -/
theorem lexes_sign {e f : Expr} {c : Char} {l : Lexeme}
    (hsign : Lexes [c] (e.chars ++ rest) (IsLexeme l)) (h : Lexes e.chars rest e.DerivedBy)
    (hkind : e.kind ≠ .boost)
    (hderives : ∀ t ts, t.lexeme = l → Derives .unary ts e → Derives .unary (t :: ts) f) :
    Lexes (c :: e.chars) rest f.DerivedBy := by
  refine (hsign.append h).mono ?_
  rintro ts ⟨us, vs, rfl, ⟨t, rfl, ht⟩, hvs⟩
  exact .of_unary (hderives t vs ht (hvs.2 hkind))

/-- A name that is not reserved is a bare word. -/
theorem ofWord_of_name {name : String} (hname : Lexicon.readable.name name) (hto : name ≠ "to") :
    Lexeme.ofWord name = .term name := by
  have hTO : name ≠ "TO" := by
    rintro rfl
    exact absurd hname.2 (by decide)
  rw [Lexeme.ofWord, if_neg (by simp [hTO, hto])]

theorem lexes_field {name : String} {body : Expr} (hname : Lexicon.readable.name name)
    (hto : name ≠ "to") (hend : endsInBlank name.toList = false)
    (hfree : beginsIdentifier (name.toList ++ ':' :: (body.chars ++ rest)) = false)
    (htouches : touches (body.chars ++ rest) = true) (h : Lexes body.chars rest body.DerivedBy)
    (hkind : body.kind ≠ .boost) :
    Lexes (Expr.field name body).chars rest (Expr.field name body).DerivedBy := by
  have hcut : (Expr.field name body).chars = name.toList ++ [':'] ++ body.chars := by
    rw [List.append_assoc]
    rfl
  rw [hcut]
  refine ((lexes_name hname.1 hend htouches hfree).append h).mono ?_
  rintro ts ⟨us, vs, rfl, ⟨t, u, rfl, ht, hu⟩, hvs⟩
  rw [String.ofList_toList, ofWord_of_name hname hto] at ht
  have hderives := (hvs.2 hkind).field ht hu
  rw [hname.2] at hderives
  exact .of_unary hderives

/-- The reserved word between the bounds of a range. -/
theorem lexes_to (rest : List Char) : Lexes " TO ".toList rest (IsLexeme .to) := by
  have hfree : beginsIdentifier ("TO".toList ++ ([' '] ++ rest)) = false := by
    show ((readUrl? 'T' _).isSome || (readDoi? 'T' _).isSome) = false
    rw [readUrl?_eq_none (by decide) (by decide), readDoi?_eq_none (by decide)]
    rfl
  have hword : Lexes "TO".toList ([' '] ++ rest) _ := lexes_word (isWord_of_reserved (.inl rfl))
    (termLength_eq_zero (by decide) (by decide) rest) hfree
  refine (lexes_space.append (hword.append lexes_space)).mono ?_
  rintro ts ⟨us, vs, rfl, rfl, ws, xs, rfl, ⟨t, rfl, ht, -⟩, rfl⟩
  exact ⟨t, rfl, ht⟩

theorem lexes_range {left right : Expr} {il ir : Bool} (hleft : left.IsBound Lexicon.readable)
    (hright : right.IsBound Lexicon.readable)
    (hlegible : (Expr.range left right il ir).legible rest = true) :
    Lexes (Expr.range left right il ir).chars rest (Expr.range left right il ir).DerivedBy := by
  rw [Expr.legible, Bool.and_eq_true] at hlegible
  let last := if ir then ']' else '\x7d'
  have hlow : Lexes left.chars (" TO ".toList ++ (right.chars ++ [last]) ++ rest) _ :=
    lexes_bound hleft (delimited_to _) (by simpa using hlegible.1)
  have hhigh : Lexes right.chars ([last] ++ rest) _ :=
    lexes_bound hright (delimited_cons.2 (by cases ir <;> decide)) hlegible.2
  have hbounds := hlow.append ((lexes_to _).append (hhigh.append (lexes_rbracket ir rest)))
  rw [Expr.chars_range]
  refine ((lexes_lbracket il _).append hbounds).mono ?_
  rintro ts ⟨_, _, rfl, ⟨t, rfl, ht⟩, _, _, rfl, ⟨l, rfl, hl⟩, _, _, rfl, ⟨sep, rfl, hsep⟩, _, _,
    rfl, ⟨r, rfl, hr⟩, u, rfl, hu⟩
  exact .of_unary (.range ht hl hsep hr hu)

/-! ### Trees -/

/-- **A legible tree is read back.** -/
theorem lexes_chars {e : Expr} (h : e.Normal Lexicon.readable) (hrest : Delimited rest)
    (hlegible : e.legible rest = true) : Lexes e.chars rest e.DerivedBy := by
  induction h generalizing rest with
  | word h =>
    rw [Expr.legible, Bool.not_eq_true'] at hlegible
    exact lexes_chars_word h.1 hrest hlegible
  | reserved h =>
    rw [Expr.legible, Bool.not_eq_true'] at hlegible
    exact lexes_chars_word (isWord_of_reserved h) hrest hlegible
  | phrase h =>
    refine (lexes_quoted h rest).mono ?_
    rintro ts ⟨t, rfl, ht⟩
    exact .of_unary (.phrase ht)
  | regex h =>
    refine (lexes_regex h rest).mono ?_
    rintro ts ⟨t, rfl, ht, -⟩
    rw [String.ofList_toList] at ht
    exact .of_unary (.regex ht)
  | url h =>
    refine (lexes_url h hrest).mono ?_
    rintro ts ⟨t, rfl, ht, -⟩
    rw [String.ofList_toList] at ht
    exact .of_unary (.url ht)
  | doi h =>
    refine (lexes_doi h hrest).mono ?_
    rintro ts ⟨t, rfl, ht, -⟩
    rw [String.ofList_toList] at ht
    exact .of_unary (.doi ht)
  | field hname hbody hkind ih =>
    simp only [Expr.legible, Bool.and_eq_true, Bool.not_eq_true', bne_iff_ne, ne_eq] at hlegible
    obtain ⟨⟨⟨hto, hend⟩, hfree⟩, hinner⟩ := hlegible
    exact lexes_field hname hto hend hfree (hbody.touches rest) (ih hrest hinner) hkind
  | group hne h hlast ih =>
    rw [Expr.legible] at hlegible
    exact lexes_group (lexes_charsOfAll hne (fun e he rest => ih e he) hlast
      (by simp [delimiters]) hlegible)
  | range hleft hright => exact lexes_range hleft hright hlegible
  | @boost body score hbody hscore ih =>
    have hinner : Lexes body.chars ('^' :: score.chars ++ rest) body.DerivedBy := by
      rw [Expr.legible, hscore.2] at hlegible
      exact ih (by simp [delimiters]) hlegible
    rw [Expr.chars, hscore.2]
    refine (hinner.append (lexes_boost hscore.1 hrest)).mono ?_
    rintro ts ⟨us, vs, rfl, hus, t, rfl, ht⟩
    have hderives := hus.1.boost ht
    rw [Option.getD_some, hscore.2] at hderives
    exact ⟨hderives, fun h => absurd rfl h⟩
  | @fuzzy v slop h hslop =>
    have hword : Lexes v.toList ('~' :: slop.chars ++ rest) (IsLexeme (.term v)) := by
      rw [Expr.legible, Expr.legible, hslop.2, Bool.not_eq_true'] at hlegible
      exact lexes_term h (termLength_eq_zero (by decide) (by decide) _) hlegible
    rw [Expr.chars, Expr.chars, hslop.2]
    refine (hword.append (lexes_approx hslop.1 hrest)).mono ?_
    rintro ts ⟨us, vs, rfl, ⟨t, rfl, ht⟩, u, rfl, hu⟩
    have hderives := Derives.fuzzy ht hu
    rw [Option.getD_some, hslop.2] at hderives
    exact .of_unary hderives
  | @proximity v slop h =>
    obtain ⟨d, hd, hdigits, hslop⟩ := exists_degree_digits slop
    have hquoted := lexes_quoted h ('~' :: d.chars ++ rest)
    rw [Expr.chars, ← hdigits]
    refine (hquoted.append (lexes_approx hd hrest)).mono ?_
    rintro ts ⟨us, vs, rfl, ⟨t, rfl, ht⟩, u, rfl, hu⟩
    exact .of_unary (.proximity ht hu hslop)
  | plus h hkind ih =>
    exact lexes_sign (lexes_plus (h.touches rest)) (ih hrest hlegible) hkind fun t ts ht => .plus ht
  | minus h hkind ih =>
    exact lexes_sign (lexes_minus (h.touches rest)) (ih hrest hlegible) hkind
      fun t ts ht => .minus ht

theorem parse_text_of_legible {e : Expr} (h : e.Normal Lexicon.readable)
    (hlegible : e.legible [] = true) : parse e.text = .ok (some e) := by
  obtain ⟨ts, prev, position, hts, hderived⟩ := lexes_chars h delimited_nil hlegible none 0
  have htokens : tokenize e.text = ts := by
    rw [tokenize, Expr.text, String.toList_ofList, ← List.append_nil e.chars, hts, tokensFrom,
      List.append_nil]
  rw [parse, htokens]
  exact parseTokens_of_derives hderived.1.alone

end SearchQuery
