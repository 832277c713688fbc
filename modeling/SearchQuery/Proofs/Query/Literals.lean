import SearchQuery.Document.Compile
import SearchQuery.Proofs.Syntax.PlainText

/-!
# Literals can be searched for

With a backslash before each character that one makes literal, a text without blanks becomes one
bare word, and a search for that word in a field is a search for the text as it was typed.

## Three tables

The characters that a backslash makes literal are those of one table, the ones that end a bare word
those of a second, and the ones that cannot begin one those of a third. Quotes apart, the second
table is part of the first. The third has two characters that the first lacks, the slash and the
comma, so these must not come first.

## What escapes cannot hide

The point is in no table. So an opening that has nothing but letters, digits and points before its
end is an opening in the escaped text as well: `10.` and `www.` do begin something else. The schemes
have a colon, which is escaped.

## Main definitions

* `escape` — the text with the backslashes
* `IsLiteral` — the texts that an escaped word can stand for

## Main results

* `exists_of_escapeChars_eq_append` — the escaped text begins with nothing that needs an escape
  unless the text does
* `IsLiteral.beginsIdentifier_escapeChars` — no address and no identifier begins in an escaped text
* `compile_parse_field_escape` — the escaped text is one word, which is searched for as the text
-/

namespace SearchQuery

open Text

/-- The text with a backslash before every character that one makes literal. -/
def escape (s : String) : String := String.ofList (escapeChars s.toList)

/-- The texts that are one bare word when they are escaped. -/
structure IsLiteral (s : String) : Prop where
  /-- There is something to search for. -/
  ne_empty : s ≠ ""
  /-- There are no blanks, and no quotes but the straight double quote. -/
  chars : ∀ c ∈ s.toList, isBlank c = false ∧ (isQuote c = true → c = '"')
  /-- No slash or comma begins the text. -/
  head : ∀ c ∈ s.toList.head?, c ≠ '/' ∧ c ≠ ','
  /-- It is not the reserved word. -/
  ne_reserved : s ≠ "to" ∧ s ≠ "TO"
  /-- It begins like no identifier. -/
  no_registrant : ¬ "10.".toList <+: s.toList
  /-- It begins like no host name, in any case. -/
  no_host : ¬ "www.".toList <+: s.toList.map Char.toLower

/-! ### Escaped texts -/

theorem unescape_escape (s : String) : unescape (escape s) = s := by
  rw [unescape, escape, String.toList_ofList, unescapeChars_escapeChars, String.ofList_toList]

theorem escapeChars_cons_of_isEscapable {c : Char} (h : isEscapable c = true) (cs : List Char) :
    escapeChars (c :: cs) = '\\' :: c :: escapeChars cs := by
  rw [escapeChars, List.flatMap_cons, if_pos h]
  rfl

theorem escapeChars_cons_of_plain {c : Char} (h : isEscapable c = false) (cs : List Char) :
    escapeChars (c :: cs) = c :: escapeChars cs := by
  rw [escapeChars, List.flatMap_cons, if_neg (by simp [h])]
  rfl

theorem isEscapable_of_isTermStop {c : Char} (h : isTermStop c = true) : isEscapable c = true := by
  rw [isTermStop, List.contains_iff_mem] at h
  exact forall_mem_of_all (P := fun c => isEscapable c = true) (by decide) c h

/-- What needs no backslash may stand in a bare word. -/
theorem isTermChar_of_isEscapable_eq_false {c : Char} (h : isEscapable c = false)
    (hblank : isBlank c = false) (hquote : isQuote c = true → c = '"') : isTermChar c = true := by
  have hstop : isTermStop c = false := by
    rw [← Bool.not_eq_true]
    intro hstop
    rw [isEscapable_of_isTermStop hstop] at h
    cases h
  have hnone : isQuote c = false := by
    rw [← Bool.not_eq_true]
    intro hq
    rw [hquote hq] at h
    exact absurd h (by decide)
  rw [isTermChar, hblank, hstop, hnone]
  rfl

theorem termBody_escapeChars {cs : List Char}
    (h : ∀ c ∈ cs, isBlank c = false ∧ (isQuote c = true → c = '"')) :
    TermBody (escapeChars cs) := by
  induction cs with
  | nil => exact .nil
  | cons c cs ih =>
    rw [List.forall_mem_cons] at h
    cases hc : isEscapable c with
    | true =>
      rw [escapeChars_cons_of_isEscapable hc]
      exact .escape (ih h.2)
    | false =>
      rw [escapeChars_cons_of_plain hc]
      exact .char (isTermChar_of_isEscapable_eq_false hc h.1.1 h.1.2) (ih h.2)

/-- The first character of an escaped text is a backslash or needs none. -/
theorem escapeChars_eq_cons {cs rest : List Char} {d : Char} (h : escapeChars cs = d :: rest)
    (hne : d ≠ '\\') : isEscapable d = false ∧ ∃ cs', cs = d :: cs' ∧ escapeChars cs' = rest := by
  cases cs with
  | nil => cases h
  | cons c cs =>
    cases hc : isEscapable c with
    | true =>
      rw [escapeChars_cons_of_isEscapable hc] at h
      exact absurd (List.cons.inj h).1.symm hne
    | false =>
      rw [escapeChars_cons_of_plain hc] at h
      obtain ⟨rfl, hrest⟩ := List.cons.inj h
      exact ⟨hc, cs, rfl, hrest⟩

/-- **An escaped text begins with nothing that needs no escape unless the text does.** -/
theorem exists_of_escapeChars_eq_append {cs front rest : List Char}
    (hfront : ∀ c ∈ front, c ≠ '\\') (h : escapeChars cs = front ++ rest) :
    ∃ cs', cs = front ++ cs' ∧ escapeChars cs' = rest := by
  induction front generalizing cs with
  | nil => exact ⟨cs, rfl, h⟩
  | cons d front ih =>
    rw [List.forall_mem_cons] at hfront
    obtain ⟨-, cs', rfl, hrest⟩ := escapeChars_eq_cons h hfront.1
    obtain ⟨cs'', rfl, hback⟩ := ih hfront.2 hrest
    exact ⟨cs'', rfl, hback⟩

theorem isAlpha_of_isLower {c : Char} (h : c.isLower = true) :
    c.isAlpha = true ∧ c.isAlphanum = true ∧ c.isUpper = false := by
  have halpha : c.isAlpha = true := by
    show (c.isUpper || c.isLower) = true
    rw [h, Bool.or_true]
  have halnum : c.isAlphanum = true := isAlphanum_of_isAlpha halpha
  exact ⟨halpha, halnum, forall_ascii (P := fun c => c.isLower = true → c.isUpper = false)
    (by decide) (isAscii_of_isAlphanum halnum) h⟩

namespace IsLiteral

variable {s : String}

theorem toList_ne_nil (h : IsLiteral s) : s.toList ≠ [] :=
  mt String.toList_eq_nil_iff.1 h.ne_empty

/-- An escaped literal is a bare word. -/
theorem isWord (h : IsLiteral s) : IsWord (escape s).toList := by
  rw [escape, String.toList_ofList]
  refine ⟨termBody_escapeChars h.chars, ?_⟩
  obtain ⟨c, cs, hs⟩ := List.exists_cons_of_ne_nil h.toList_ne_nil
  obtain ⟨hblank, hquote⟩ := h.chars c (by rw [hs]; exact List.mem_cons_self)
  obtain ⟨hslash, hcomma⟩ := h.head c (by rw [hs]; rfl)
  rw [hs]
  cases hc : isEscapable c with
  | true => exact ⟨'\\', _, escapeChars_cons_of_isEscapable hc cs, by decide⟩
  | false =>
    refine ⟨c, _, escapeChars_cons_of_plain hc cs, ?_⟩
    have hplus : c ≠ '+' := by rintro rfl; exact absurd hc (by decide)
    have hminus : c ≠ '-' := by rintro rfl; exact absurd hc (by decide)
    rw [startsWord, isTermStart, isTermChar_of_isEscapable_eq_false hc hblank hquote]
    simp [hslash, hcomma, hplus, hminus]

theorem ne_reserved_escape (h : IsLiteral s) : escape s ≠ "TO" ∧ escape s ≠ "to" := by
  constructor
  · intro heq
    refine h.ne_reserved.2 ?_
    rw [← unescape_escape s, heq]
    rfl
  · intro heq
    refine h.ne_reserved.1 ?_
    rw [← unescape_escape s, heq]
    rfl

/-- No address opens in the escaped text: the colon of a scheme is escaped, and a host name would
open in the text as well. -/
theorem escapeChars_ne_opening (h : IsLiteral s) {o rest : List Char} (ho : Url.Opening o) :
    escapeChars s.toList ≠ o ++ rest := by
  have hletter {l c : Char} (hl : l ∈ ['h', 't', 'p', 'w']) (hc : Url.isLetter l c = true) :
      c ≠ '\\' := by
    rintro rfl
    exact absurd (Url.isAlphanum_of_isLetter hl hc) (by decide)
  have hscheme (front rest : List Char) (hfront : ∀ c ∈ front, c ≠ '\\') :
      escapeChars s.toList ≠ front ++ ':' :: rest := by
    intro heq
    obtain ⟨cs', -, hcolon⟩ := exists_of_escapeChars_eq_append hfront heq
    exact absurd (escapeChars_eq_cons hcolon (by decide)).1 (by decide)
  cases ho with
  | @plain a b c d ha hb hc hd =>
    refine hscheme [a, b, c, d] ('/' :: '/' :: rest) ?_
    simp [hletter (by decide) ha, hletter (by decide) hb, hletter (by decide) hc,
      hletter (by decide) hd]
  | @secure a b c d e ha hb hc hd he =>
    have hne : e ≠ '\\' := by
      rintro rfl
      exact absurd he (by decide)
    refine hscheme [a, b, c, d, e] ('/' :: '/' :: rest) ?_
    simp [hletter (by decide) ha, hletter (by decide) hb, hletter (by decide) hc,
      hletter (by decide) hd, hne]
  | @host a b c ha hb hc =>
    intro heq
    have hfront : ∀ d ∈ [a, b, c, '.'], d ≠ '\\' := by
      simp [hletter (by decide) ha, hletter (by decide) hb, hletter (by decide) hc]
    obtain ⟨cs', hs, -⟩ := exists_of_escapeChars_eq_append hfront heq
    rw [Url.isLetter, beq_iff_eq] at ha hb hc
    refine h.no_host ⟨cs'.map Char.toLower, ?_⟩
    rw [hs, List.map_append]
    simp only [List.map_cons, List.map_nil, ha, hb, hc]
    rfl

/-- **No address and no identifier begins in the escaped text.** -/
theorem beginsIdentifier_escapeChars (h : IsLiteral s) :
    beginsIdentifier (escapeChars s.toList) = false := by
  cases heq : escapeChars s.toList with
  | nil => rfl
  | cons c cs =>
    rw [beginsIdentifier, Bool.or_eq_false_iff, Option.isSome_eq_false_iff,
      Option.isSome_eq_false_iff, Option.isNone_iff_eq_none, Option.isNone_iff_eq_none]
    constructor
    · rw [readUrl?, Option.map_eq_none_iff, Option.eq_none_iff_forall_ne_some]
      intro n hn
      obtain ⟨o, rest, hcs, ho, -⟩ := Url.length?_eq_some_iff.1 hn
      exact h.escapeChars_ne_opening ho (heq.trans hcs)
    · rw [readDoi?, Option.bind_eq_none_iff]
      intro r hr
      obtain ⟨hregistrant, -⟩ := Doi.split?_eq_some hr
      obtain ⟨ds, rest, hcs, -⟩ := Doi.registrant?_eq_some_iff.1 hregistrant
      have hfront : ∀ d ∈ ['1', '0', '.'], d ≠ '\\' := forall_mem_of_all (by decide)
      obtain ⟨cs', hs, -⟩ := exists_of_escapeChars_eq_append hfront (heq.trans hcs)
      exact absurd ⟨cs', hs.symm⟩ h.no_registrant

/-- The escaped text is one token. -/
theorem tokenize_escape (h : IsLiteral s) :
    tokenize (escape s) = [⟨.term (escape s), escape s, 0⟩] := by
  have hfree : beginsIdentifier ((escape s).toList ++ []) = false := by
    rw [List.append_nil, escape, String.toList_ofList]
    exact h.beginsIdentifier_escapeChars
  have htoken := tokensFrom_word h.isWord rfl hfree none 0
  obtain ⟨hTO, hto⟩ := h.ne_reserved_escape
  rw [List.append_nil, String.ofList_toList, tokensFrom, Lexeme.ofWord,
    if_neg (by simp [hTO, hto])] at htoken
  exact htoken

/-- A search for the escaped text in a field is a tree that is read back. -/
theorem parse_field_escape (h : IsLiteral s) {name : String} (hname : name ≠ "")
    (hlower : ∀ c ∈ name.toList, c.isLower = true) (hto : name ≠ "to") :
    parse (name ++ ":" ++ escape s) = .ok (some (.field name (.word (escape s)))) := by
  have htext : (Expr.field name (.word (escape s))).text = name ++ ":" ++ escape s := by
    rw [← String.toList_inj, Expr.text, String.toList_ofList]
    simp [Expr.chars]
  rw [← htext]
  have hplain : Lexicon.plain.name name := by
    obtain ⟨c, cs, hcs⟩ := List.exists_cons_of_ne_nil (mt String.toList_eq_nil_iff.1 hname)
    have hTO : name ≠ "TO" := by
      rintro rfl
      exact absurd (hlower 'T' (by decide)) (by decide)
    have halpha : ∀ d ∈ name.toList, d.isAlpha = true ∧ d.isAlphanum = true ∧ d.isUpper = false :=
      fun d hd => isAlpha_of_isLower (hlower d hd)
    refine ⟨⟨⟨c, cs, hcs, ?_, ?_⟩, hTO, hto⟩, fun d hd => (halpha d hd).2.2⟩
    · exact (halpha c (by rw [hcs]; exact List.mem_cons_self)).1
    · exact fun d hd => (halpha d (by rw [hcs]; exact List.mem_cons_of_mem c hd)).2.1
  refine parse_text_of_legible ?_ (Expr.legible_field_of_plain hplain.1 ?_ ?_)
  · exact .field (Lexicon.readable_name_of_plain hplain) (.word ⟨h.isWord, h.ne_reserved_escape⟩)
      (by simp [Expr.kind])
  · -- the escaped text begins with no slash
    intro cs hcs
    rw [Expr.chars, List.append_nil, escape, String.toList_ofList] at hcs
    obtain ⟨-, cs', hs, -⟩ := escapeChars_eq_cons hcs (by decide)
    exact (h.head '/' (by rw [hs]; rfl)).1 rfl
  · rw [Expr.legible, List.append_nil, escape, String.toList_ofList,
      h.beginsIdentifier_escapeChars]
    rfl

end IsLiteral

/-- **Escaping makes any literal searchable.** The escaped text is one word, taking the backslashes
away again gives the text, and a search for the word in a field is a search for the text. -/
theorem compile_parse_field_escape {s : String} (h : IsLiteral s) :
    tokenize (escape s) = [⟨.term (escape s), escape s, 0⟩] ∧ unescape (escape s) = s ∧
      ∀ name : String, name ≠ "" → (∀ c ∈ name.toList, c.isLower = true) → name ≠ "to" →
        ∃ e, parse (name ++ ":" ++ escape s) = .ok (some e) ∧ e.compile = .ok (.term name s) := by
  refine ⟨h.tokenize_escape, unescape_escape s, fun name hname hlower hto => ?_⟩
  refine ⟨.field name (.word (escape s)), h.parse_field_escape hname hlower hto, ?_⟩
  rw [Expr.compile, Expr.compileIn, unescape_escape]

theorem compile_parse_field_escape_signs :
    IsLiteral "(c++:\"x/y\")\\" ∧
      escape "(c++:\"x/y\")\\" = "\\(c\\+\\+\\:\\\"x/y\\\"\\)\\\\" ∧
      ∃ e, parse ("title" ++ ":" ++ escape "(c++:\"x/y\")\\") = .ok (some e) ∧
        e.compile = .ok (.term "title" "(c++:\"x/y\")\\") := by
  have h : IsLiteral "(c++:\"x/y\")\\" := by
    refine ⟨by decide, forall_mem_of_all (by decide), ?_, by decide, by decide, by decide⟩
    intro c hc
    cases hc
    decide
  have hlower : ∀ c ∈ "title".toList, c.isLower = true := forall_mem_of_all (by decide)
  obtain ⟨-, -, hsearch⟩ := compile_parse_field_escape h
  exact ⟨h, by decide, hsearch "title" (by decide) hlower (by decide)⟩

end SearchQuery
