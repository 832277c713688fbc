import Mathlib.Data.List.Infix
import SearchQuery.Diagnostic
import SearchQuery.Proofs.Syntax.Viability
import SearchQuery.Proofs.Token.Lexemes

/-!
# Hints and the causes of errors

A text that is no query is shown with a hint in two cases: it ends too soon, or the reserved word of
ranges stands where it cannot stand.

## A cause that is searched for

The hint is not chosen by the cause. It is chosen by a search in the message, and the message quotes
the offending token. A phrase or regular expression may hold the words that are searched for, and a
bare word may end with the second one, because a backslash lets an apostrophe stand in it. No other
token can: blanks and apostrophes do not stand in its text. The reserved word has two spellings, and
only one of them is searched for. `Lexeme.Misleads` lists these tokens. For all others, and for
texts that end too soon, the hint is that of the cause.

## Main definitions

* `SyntaxError.fittingHint?` — the hint that the cause of an error calls for
* `SyntaxError.Misleads` — the offending token brings about another hint
* `Lexeme.WrittenAs` — what tells the texts of lexemes apart in a message

## Main results

* `containsChars_iff` — the search finds the parts of a text
* `mentions_end_iff`, `mentions_to_iff` — where the message about a token has what is searched for
* `suggestion?_eq_fittingHint?_iff` — which errors have the hint of their cause
* `suggestion?_ne_fittingHint?_of_phrase` — a phrase that is taken for the end of the text
-/

namespace SearchQuery

open Text

/-! ### Hints -/

/-- The hint for a text that ends too soon. -/
def unclosedHint : String := "Check that every opening parenthesis or bracket is closed"

/-- The hint for a reserved word that stands where it cannot stand. -/
def rangeHint : String := "Ranges are written as [from TO to] or \x7bfrom TO to\x7d"

/-- The hint that the cause of an error calls for. -/
def SyntaxError.fittingHint? : SyntaxError → Option String
  | unexpected t => if t.lexeme = .to then some rangeHint else none
  | endOfInput => some unclosedHint

/-- A lexeme with this text is quoted in a message that is taken for the message of another cause,
or not for that of its own. -/
def Lexeme.Misleads (raw : List Char) : Lexeme → Prop
  | .to => raw = "to".toList
  | .term _ => "'TO".toList <:+ raw
  | .phrase _ | .regex _ => "end of input".toList <:+: raw ∨ "'TO'".toList <:+: raw
  | _ => False

/-- The hint of the error is not that of its cause. -/
def SyntaxError.Misleads : SyntaxError → Prop
  | unexpected t => t.lexeme.Misleads t.raw.toList
  | endOfInput => False

/-! ### Searching a message -/

/-- The search finds the parts of a text. -/
theorem Diagnostic.containsChars_iff {needle cs : List Char} :
    containsChars needle cs = true ↔ needle <:+: cs := by
  induction cs with
  | nil => rw [containsChars, List.isEmpty_iff, List.infix_nil]
  | cons c cs ih =>
    rw [containsChars, Bool.or_eq_true, List.isPrefixOf_iff_prefix, ih, List.infix_cons_iff]

/-- What has no `c` is not found across one. -/
theorem infix_append_cons_iff {needle before after : List Char} {c : Char} (hc : c ∉ needle) :
    needle <:+: before ++ c :: after ↔ needle <:+: before ∨ needle <:+: after := by
  rw [List.infix_append_iff, List.infix_cons_iff]
  constructor
  · rintro (hbefore | (hstart | hafter) | ⟨front, back, rfl, hfront, hback⟩)
    · exact .inl hbefore
    · cases needle with
      | nil => exact .inl List.nil_infix
      | cons d ds =>
        obtain ⟨rfl, -⟩ := List.cons_prefix_cons.1 hstart
        exact absurd List.mem_cons_self hc
    · exact .inr hafter
    · cases back with
      | nil => exact .inl (by rw [List.append_nil]; exact hfront.isInfix)
      | cons d ds =>
        obtain ⟨rfl, -⟩ := List.cons_prefix_cons.1 hback
        exact absurd (List.mem_append_right _ List.mem_cons_self) hc
  · rintro (hbefore | hafter)
    · exact .inl hbefore
    · exact .inr (.inl (.inr hafter))

/-- What begins with `c` is not found before the first one. -/
theorem cons_infix_append_iff {before after needle : List Char} {c : Char} (hc : c ∉ before) :
    c :: needle <:+: before ++ after ↔ c :: needle <:+: after := by
  induction before with
  | nil => rfl
  | cons d before ih =>
    rw [List.mem_cons, not_or] at hc
    rw [List.cons_append, List.infix_cons_iff, List.cons_prefix_cons, ih hc.2]
    exact or_iff_right fun h => hc.1 h.1

section Messages

variable {t : Token} {query : Option String}

theorem message_unexpected (t : Token) (query : Option String) :
    (Diagnostic.ofSyntaxError (.unexpected t) query).message.toList =
      "unexpected ".toList ++ '\'' :: (t.raw.toList ++ ['\'']) := by
  rw [Diagnostic.ofSyntaxError, SyntaxError.message, String.toList_append, String.toList_append]
  rfl

/-- The words about the end of a text are found only in the token. -/
theorem mentions_end_iff :
    (Diagnostic.ofSyntaxError (.unexpected t) query).mentions "end of input" = true ↔
      "end of input".toList <:+: t.raw.toList := by
  have hfront : ¬"end of input".toList <:+: "unexpected ".toList := by decide
  have hback : ¬"end of input".toList <:+: ([] : List Char) := by decide
  rw [Diagnostic.mentions, Diagnostic.containsChars_iff, message_unexpected,
    infix_append_cons_iff (by decide), infix_append_cons_iff (by decide), or_iff_right hfront,
    or_iff_left hback]

/-- The quoted word is found in the token, or made of a part of it and the quotes of the
message. -/
theorem mentions_to_iff :
    (Diagnostic.ofSyntaxError (.unexpected t) query).mentions "'TO'" = true ↔
      t.raw.toList = "TO".toList ∨ "TO'".toList <+: t.raw.toList ∨
        "'TO".toList <:+ t.raw.toList ∨ "'TO'".toList <:+: t.raw.toList := by
  have hstart : "'TO'".toList <+: '\'' :: (t.raw.toList ++ ['\'']) ↔
      t.raw.toList = "TO".toList ∨ "TO'".toList <+: t.raw.toList := by
    have hquote : "TO'".toList = "TO".toList ++ ['\''] := rfl
    rw [show "'TO'".toList = '\'' :: "TO'".toList from rfl, List.cons_prefix_cons,
      List.prefix_concat_iff, hquote, List.append_cancel_right_eq]
    exact ⟨fun h => h.2.imp_left Eq.symm, fun h => ⟨rfl, h.imp_left Eq.symm⟩⟩
  have hsuffix : "'TO'".toList <:+ t.raw.toList ++ ['\''] ↔ "'TO".toList <:+ t.raw.toList := by
    rw [show "'TO'".toList = "'TO".toList ++ ['\''] from rfl,
      List.suffix_append_inj_of_length_eq rfl]
    exact and_iff_left rfl
  rw [Diagnostic.mentions, Diagnostic.containsChars_iff, message_unexpected,
    show "'TO'".toList = '\'' :: "TO'".toList from rfl, cons_infix_append_iff (by decide),
    List.infix_cons_iff, List.infix_concat_iff]
  rw [show '\'' :: "TO'".toList = "'TO'".toList from rfl, hstart, hsuffix, or_assoc]

end Messages

/-! ### How lexemes are written -/

/-- A text in which nothing is found that a message is searched for. -/
structure Unremarkable (raw : List Char) : Prop where
  /-- It is not the reserved word. -/
  head : raw.head? ≠ some 'T'
  /-- It has no quote of a message. -/
  quote : '\'' ∉ raw
  /-- It has no blank behind the `d` of `end`. -/
  blank : ¬['d', ' '] <:+: raw

/-- The text of a lexeme. Nothing is said about the inner part of a phrase or regular expression. -/
def Lexeme.WrittenAs (raw : List Char) : Lexeme → Prop
  | .term v => v.toList = raw
  | .to => True
  | .phrase _ | .regex _ => raw.head? ≠ some 'T' ∧ raw.getLast? ≠ some 'O'
  | _ => Unremarkable raw

theorem Unremarkable.of_append {front back : List Char} (hhead : (front ++ back).head? ≠ some 'T')
    (hfront : ∀ c ∈ front, c ≠ '\'' ∧ c ≠ 'd') (hback : ∀ c ∈ back, c ≠ '\'' ∧ c ≠ ' ') :
    Unremarkable (front ++ back) where
  head := hhead
  quote h := by
    rcases List.mem_append.1 h with h | h
    · exact (hfront _ h).1 rfl
    · exact (hback _ h).1 rfl
  blank h := by
    rw [cons_infix_append_iff fun h => (hfront _ h).2 rfl] at h
    exact (hback ' ' (h.mem (by decide))).2 rfl

theorem Unremarkable.of_forall {c : Char} {cs : List Char} (hc : c ≠ 'T')
    (hcs : ∀ d ∈ c :: cs, d ≠ '\'' ∧ d ≠ ' ') : Unremarkable (c :: cs) :=
  @Unremarkable.of_append [] (c :: cs) (by simpa using hc) (List.forall_mem_nil _) hcs

/-- A sign, or a mark with digits and points. -/
theorem Unremarkable.of_mark {c : Char} {cs : List Char}
    (hc : c ∈ ['+', '-', ':', '(', ')', '[', ']', '\x7b', '\x7d', '~', '^'])
    (hcs : ∀ d ∈ cs, Decimal.isNumeralChar d = true) : Unremarkable (c :: cs) := by
  have hmarks : ∀ d ∈ ['+', '-', ':', '(', ')', '[', ']', '\x7b', '\x7d', '~', '^'],
      d ≠ 'T' ∧ d ≠ '\'' ∧ d ≠ ' ' := forall_mem_of_all (by decide)
  refine .of_forall (hmarks c hc).1 (List.forall_mem_cons.2 ⟨(hmarks c hc).2, fun d hd => ?_⟩)
  constructor <;> rintro rfl <;> exact absurd (hcs _ hd) (by decide)

theorem unremarkable_of_readUrl? {c : Char} {cs : List Char} {l : Lexeme} {n : Nat}
    (h : readUrl? c cs = some (l, n)) : Unremarkable (c :: cs.take n) := by
  have hbody := isBodyChar_of_readUrl? h
  refine .of_forall ?_ fun d hd => ?_
  · rintro rfl
    rw [readUrl?_eq_none (by decide) (by decide)] at h
    cases h
  · constructor <;> rintro rfl <;> exact absurd (hbody _ hd) (by decide)

/-- The blanks of an identifier stand before its name. -/
theorem unremarkable_of_readDoi? {c : Char} {cs : List Char} {l : Lexeme} {n : Nat}
    (h : readDoi? c cs = some (l, n)) : Unremarkable (c :: cs.take n) := by
  obtain ⟨ds, before, after, found, htake, hds, hbefore, hafter, hfound⟩ := take_of_readDoi? h
  rw [htake]
  refine .of_append (by simp) (fun d hd => ?_) fun d hd => ?_
  · simp only [List.mem_append, List.mem_cons] at hd
    rcases hd with ((rfl | rfl | rfl | hd) | hd) | rfl | hd
    · decide
    · decide
    · decide
    · constructor <;> rintro rfl <;> exact absurd (hds _ hd) (by decide)
    · constructor <;> rintro rfl <;> exact absurd (hbefore _ hd) (by decide)
    · decide
    · constructor <;> rintro rfl <;> exact absurd (hafter _ hd) (by decide)
  · constructor <;> rintro rfl <;> exact absurd (hfound _ hd) (by decide)

/-- **What the reader takes for a lexeme is written as one.** -/
theorem Lexeme.ReadFrom.writtenAs {raw : List Char} {l : Lexeme} (h : l.ReadFrom raw) :
    l.WrittenAs raw := by
  cases h with
  | url h =>
    obtain ⟨v, rfl, -⟩ := isUrl_of_readUrl? h
    exact unremarkable_of_readUrl? h
  | doi h =>
    obtain ⟨v, rfl, -⟩ := isDoi_of_readDoi? h
    exact unremarkable_of_readDoi? h
  | word h =>
    rw [ofWord]
    split
    · exact trivial
    · exact String.toList_ofList
  | @phrase q _ _ hquote h =>
    obtain ⟨front, last, rfl, hlast⟩ := h.exists_append
    rw [← List.cons_append]
    refine ⟨fun hhead => ?_, fun hO => ?_⟩
    · obtain rfl : q = 'T' := by simpa using hhead
      exact absurd hquote (by decide)
    · rw [List.getLast?_concat] at hO
      cases hO
      exact absurd hlast (by decide)
  | regex h =>
    obtain ⟨front, rfl⟩ := h.exists_append
    rw [← List.cons_append]
    exact ⟨by simp, by rw [List.getLast?_concat]; decide⟩
  | approx cs | boost cs => exact .of_mark (by decide) isNumeralChar_of_degree
  | mark h =>
    simp only [ofMarks, List.mem_cons, List.not_mem_nil, or_false, Prod.mk.injEq] at h
    rcases h with ⟨rfl, rfl⟩ | ⟨rfl, rfl⟩ | ⟨rfl, rfl⟩ | ⟨rfl, rfl⟩ | ⟨rfl, rfl⟩ | ⟨rfl, rfl⟩ |
      ⟨rfl, rfl⟩ | ⟨rfl, rfl⟩ | ⟨rfl, rfl⟩ <;> exact .of_mark (by decide) (List.forall_mem_nil _)

/-! ### Which tokens mislead -/

/-- Blanks and quotes stand in a bare word only behind a backslash. -/
theorem TermBody.backslash_of_infix {cs : List Char} (h : TermBody cs) {c d : Char}
    (hd : isTermChar d = false) (hne : d ≠ '\\') (hcd : [c, d] <:+: cs) : c = '\\' := by
  -- a word goes on with one of its own characters or with a backslash
  have hhead {cs : List Char} (h : TermBody cs) : ¬[d] <+: cs := by
    cases h with
    | nil => simp
    | char hc _ => exact fun h => by simp [(List.cons_prefix_cons.1 h).1, hc] at hd
    | escape _ => exact fun h => hne (List.cons_prefix_cons.1 h).1
  induction h with
  | nil => simp at hcd
  | char _ h ih =>
    rcases List.infix_cons_iff.1 hcd with hstart | hinfix
    · exact absurd (List.cons_prefix_cons.1 hstart).2 (hhead h)
    · exact ih hinfix
  | escape h ih =>
    rcases List.infix_cons_iff.1 hcd with hstart | hinfix
    · exact (List.cons_prefix_cons.1 hstart).1
    rcases List.infix_cons_iff.1 hinfix with hstart | hinfix
    · exact absurd (List.cons_prefix_cons.1 hstart).2 (hhead h)
    · exact ih hinfix

/-- Neither of what is searched for stands in a bare word. -/
theorem TermBody.not_infix {cs : List Char} (h : TermBody cs) :
    ¬"end of input".toList <:+: cs ∧ ¬"TO'".toList <:+: cs := by
  have hblank : ['d', ' '] <:+: "end of input".toList := by decide
  have hquote : ['O', '\''] <:+: "TO'".toList := by decide
  constructor
  · intro hcs
    exact absurd (h.backslash_of_infix (by decide) (by decide) (hblank.trans hcs)) (by decide)
  · intro hcs
    exact absurd (h.backslash_of_infix (by decide) (by decide) (hquote.trans hcs)) (by decide)

theorem Unremarkable.not_infix {raw : List Char} (h : Unremarkable raw) :
    ¬"end of input".toList <:+: raw ∧ ¬"'TO".toList <:+: raw := by
  have hblank : ['d', ' '] <:+: "end of input".toList := by decide
  exact ⟨fun hraw => h.blank (hblank.trans hraw), fun hraw => h.quote (hraw.mem (by decide))⟩

theorem infix_quoted {cs : List Char} (h : "'TO'".toList <:+: cs) :
    "'TO".toList <:+: cs ∧ "TO'".toList <:+: cs := by
  have hfront : "'TO".toList <:+: "'TO'".toList := by decide
  have hback : "TO'".toList <:+: "'TO'".toList := by decide
  exact ⟨hfront.trans h, hback.trans h⟩

/-- A text that begins otherwise is not the reserved word, not even with the quote that stands
before it. -/
theorem not_reserved_of_head {raw : List Char} (h : raw.head? ≠ some 'T') :
    raw ≠ "TO".toList ∧ ¬"TO'".toList <+: raw := by
  constructor
  · rintro rfl
    exact h rfl
  · rintro ⟨rest, rfl⟩
    exact h rfl

/-- The reserved word with quotes around it, one of which may be a quote of the message. -/
def QuotesReserved (raw : List Char) : Prop :=
  raw = "TO".toList ∨ "TO'".toList <+: raw ∨ "'TO".toList <:+ raw ∨ "'TO'".toList <:+: raw

/-- The hint of an error about a token, in terms of the text of the token. -/
theorem suggestion?_unexpected (t : Token) (query : Option String) :
    ((Diagnostic.ofSyntaxError (.unexpected t) query).suggestion? = some rangeHint ↔
      ¬"end of input".toList <:+: t.raw.toList ∧ QuotesReserved t.raw.toList) ∧
    ((Diagnostic.ofSyntaxError (.unexpected t) query).suggestion? = none ↔
      ¬"end of input".toList <:+: t.raw.toList ∧ ¬QuotesReserved t.raw.toList) := by
  have hhints : unclosedHint ≠ rangeHint := by decide
  have hchoice : (Diagnostic.ofSyntaxError (.unexpected t) query).suggestion? =
      if (Diagnostic.ofSyntaxError (.unexpected t) query).mentions "end of input" then
        some unclosedHint
      else if (Diagnostic.ofSyntaxError (.unexpected t) query).mentions "'TO'" then
        some rangeHint
      else none := rfl
  rw [QuotesReserved, ← @mentions_end_iff t query, ← @mentions_to_iff t query, hchoice]
  split
  · simp [*]
  · split <;> simp [*]

theorem Unremarkable.not_quotesReserved {raw : List Char} (h : Unremarkable raw) :
    ¬QuotesReserved raw := by
  obtain ⟨hne, hstart⟩ := not_reserved_of_head h.head
  obtain ⟨-, hquote⟩ := h.not_infix
  rintro (heq | hto | hsuffix | hinfix)
  · exact hne heq
  · exact hstart hto
  · exact hquote hsuffix.isInfix
  · exact hquote (infix_quoted hinfix).1

theorem TermBody.quotesReserved_iff {raw : List Char} (h : TermBody raw)
    (hne : raw ≠ "TO".toList) : QuotesReserved raw ↔ "'TO".toList <:+ raw := by
  constructor
  · rintro (heq | hto | hsuffix | hinfix)
    · exact absurd heq hne
    · exact absurd hto.isInfix h.not_infix.2
    · exact hsuffix
    · exact absurd (infix_quoted hinfix).2 h.not_infix.2
  · exact fun hsuffix => .inr (.inr (.inl hsuffix))

/-- In a text with other ends the quotes around the reserved word are its own. -/
theorem quotesReserved_iff_of_ends {raw : List Char} (hhead : raw.head? ≠ some 'T')
    (hlast : raw.getLast? ≠ some 'O') : QuotesReserved raw ↔ "'TO'".toList <:+: raw := by
  obtain ⟨hne, hstart⟩ := not_reserved_of_head hhead
  constructor
  · rintro (heq | hto | ⟨front, rfl⟩ | hinfix)
    · exact absurd heq hne
    · exact absurd hto hstart
    · exact absurd (List.getLast?_append_of_ne_nil front (by decide)) hlast
    · exact hinfix
  · exact fun hinfix => .inr (.inr (.inr hinfix))

/-- **The hint of an error about a token** is that of the cause exactly if the token does not
mislead. -/
theorem suggestion?_unexpected_iff {t : Token} (hreadable : t.Readable)
    (hwritten : t.lexeme.WrittenAs t.raw.toList) (query : Option String) :
    (Diagnostic.ofSyntaxError (.unexpected t) query).suggestion? =
        (SyntaxError.unexpected t).fittingHint? ↔ ¬t.lexeme.Misleads t.raw.toList := by
  obtain ⟨hrange, hnone⟩ := suggestion?_unexpected t query
  rw [SyntaxError.fittingHint?]
  rw [Token.Readable] at hreadable
  by_cases hto : t.lexeme = .to
  · rw [if_pos hto, hrange]
    rw [hto] at hreadable ⊢
    rw [Lexeme.Misleads]
    rcases hreadable with hraw | hraw <;> rw [hraw]
    · exact iff_of_true ⟨by decide, .inl rfl⟩ (by decide)
    · have hquotes : ¬QuotesReserved "to".toList := by
        rw [QuotesReserved]
        decide
      exact iff_of_false (fun h => hquotes h.2) (by decide)
  rw [if_neg hto, hnone, ← not_or]
  refine not_congr ?_
  generalize t.lexeme = l at *
  cases l with
  | term v =>
    obtain ⟨hword, hne, -⟩ := hreadable
    rw [hwritten] at hword
    have hraw : t.raw.toList ≠ "TO".toList := fun heq =>
      hne (String.toList_injective (hwritten.trans heq))
    rw [hword.body.quotesReserved_iff hraw, or_iff_right hword.body.not_infix.1]
    rfl
  | phrase v | regex v =>
    rw [quotesReserved_iff_of_ends hwritten.1 hwritten.2]
    rfl
  | url _ | doi _ | approx _ | boost _ | plus | minus | colon | lparen | rparen | lbracket _
  | rbracket _ =>
    have htext : Unremarkable t.raw.toList := hwritten
    exact iff_of_false (not_or.2 ⟨htext.not_infix.1, htext.not_quotesReserved⟩) id
  | _ => exact absurd rfl hto

/-- **Which errors have the hint of their cause.** A text that is no query is shown with the hint
for texts that end too soon if it ends too soon, with the one for ranges if the offending token is
the reserved word, and else with none, unless the offending token misleads. If it does, the hint is
another one. -/
theorem suggestion?_eq_fittingHint?_iff {s : String} {err : SyntaxError}
    (h : parse s = .error err) :
    (Diagnostic.ofSyntaxError err (some s)).suggestion? = err.fittingHint? ↔ ¬err.Misleads := by
  cases err with
  | unexpected t =>
    obtain ⟨used, rest, hts, -⟩ := begins_of_unexpected h
    have ht : t ∈ tokenize s := by simp [hts]
    exact suggestion?_unexpected_iff (readable_of_mem_tokenize ht)
      (readFrom_of_mem_tokensFrom ht).writtenAs (some s)
  | endOfInput =>
    have hmentions : (Diagnostic.ofSyntaxError .endOfInput (some s)).mentions "end of input" =
        true := (by decide : Diagnostic.containsChars "end of input".toList
          SyntaxError.endOfInput.message.toList = true)
    exact iff_of_true (if_pos hmentions) id

/-- The reserved word in the place of a bound. -/
theorem suggestion?_eq_fittingHint?_iff_bound :
    parse "[end TO TO]" = .error (.unexpected ⟨.to, "TO", 8⟩) ∧
      (Diagnostic.ofSyntaxError (.unexpected ⟨.to, "TO", 8⟩) (some "[end TO TO]")).suggestion? =
        some rangeHint := by
  have hparse : parse "[end TO TO]" = .error (.unexpected ⟨.to, "TO", 8⟩) := by
    with_unfolding_all rfl
  have hfits : ¬(SyntaxError.unexpected ⟨.to, "TO", 8⟩).Misleads := by
    show "TO".toList ≠ "to".toList
    decide
  exact ⟨hparse, (suggestion?_eq_fittingHint?_iff hparse).2 hfits⟩

/-- A phrase where the reserved word should be holds the words about the end of a text. -/
theorem suggestion?_ne_fittingHint?_of_phrase :
    parse "[a \"end of input\" b]" =
        .error (.unexpected ⟨.phrase "end of input", "\"end of input\"", 3⟩) ∧
      (Diagnostic.ofSyntaxError (.unexpected ⟨.phrase "end of input", "\"end of input\"", 3⟩)
        (some "[a \"end of input\" b]")).suggestion? = some unclosedHint ∧
      (SyntaxError.unexpected ⟨.phrase "end of input", "\"end of input\"", 3⟩).fittingHint? =
        none := by
  have hparse : parse "[a \"end of input\" b]" =
      .error (.unexpected ⟨.phrase "end of input", "\"end of input\"", 3⟩) := by
    with_unfolding_all rfl
  exact ⟨hparse, by decide, rfl⟩

end SearchQuery
