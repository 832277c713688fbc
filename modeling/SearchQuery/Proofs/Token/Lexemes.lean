import SearchQuery.Expr.Text
import SearchQuery.Proofs.Decimal.Text
import SearchQuery.Proofs.Text.Brackets
import SearchQuery.Proofs.Token.Identifier

/-!
# The shapes of lexemes

What the reader of tokens yields, and what it reads back. Bare words, phrases and regular
expressions have shapes like those of addresses and identifiers. `Lexeme.Readable` puts them
together: every token has a readable lexeme, and a lexeme of each shape is read from its own
characters.

## Escapes are kept in pairs

A backslash belongs to the character after it, also where that is a blank, a quote or another
backslash. So the shapes are inductive predicates with one case for the pair, not conditions on
single characters.

## Main definitions

* `TermBody`, `IsWord` — a bare word
* `PhraseBody`, `RegexBody` — the content of a phrase, of a regular expression
* `PhraseText`, `RegexText` — the content with the characters that it is read from
* `Lexeme.ReadFrom` — a lexeme with the text that the reader takes for it
* `Lexeme.Readable` — a lexeme that the reader may yield

## Main results

* `readFrom_of_readLexeme?` — what the reader takes
* `Lexeme.ReadFrom.readable`, `readable_of_mem_tokenize` — the reader yields readable lexemes only
* `pairwise_position_tokenize` — the tokens of a text stand one after the other
* `termLength_append`, `phraseBody?_append`, `regexBody?_append` — the contents are read back
-/

namespace SearchQuery

open Text

/-! ### Bare words -/

/-- The characters after the first one of a bare word. -/
inductive TermBody : List Char → Prop where
  /-- The end. -/
  | nil : TermBody []
  /-- A character that may stand in a word. -/
  | char {c : Char} {cs : List Char} (hc : isTermChar c = true) (h : TermBody cs) :
      TermBody (c :: cs)
  /-- Any character after a backslash. -/
  | escape {c : Char} {cs : List Char} (h : TermBody cs) : TermBody ('\\' :: c :: cs)

/-- Whether the character begins bare words if another one follows. -/
def startsWord (c : Char) : Bool := isTermStart c || c == '\\'

/-- A bare word. -/
structure IsWord (cs : List Char) : Prop where
  /-- It consists of characters and escapes. -/
  body : TermBody cs
  /-- Fewer characters may begin it. -/
  starts : ∃ c ds, cs = c :: ds ∧ startsWord c = true

theorem ne_backslash_of_isTermChar {c : Char} (h : isTermChar c = true) : c ≠ '\\' := by
  rintro rfl
  exact absurd h (by decide)

theorem termLength_cons {c : Char} (hc : isTermChar c = true) (cs : List Char) :
    termLength (c :: cs) = termLength cs + 1 := by
  have hne := ne_backslash_of_isTermChar hc
  rw [termLength.eq_4 _ _ (fun h _ => hne h) (fun _ _ h _ => hne h), if_pos hc]

theorem termLength_append {cs : List Char} (h : TermBody cs) (rest : List Char) :
    termLength (cs ++ rest) = cs.length + termLength rest := by
  induction h with
  | nil => simp
  | char hc _ ih => rw [List.cons_append, termLength_cons hc, ih, List.length_cons]; omega
  | escape _ ih =>
    rw [List.cons_append, List.cons_append, termLength, ih, List.length_cons, List.length_cons]
    omega

theorem termBody_take (cs : List Char) : TermBody (cs.take (termLength cs)) := by
  fun_induction termLength cs with
  | case1 => exact .nil
  | case2 => exact .nil
  | case3 c cs ih => exact ih.escape
  | case4 c cs _ _ hc ih => exact ih.char hc
  | case5 => exact .nil

theorem TermBody.append {cs ds : List Char} (h : ∀ c ∈ ds, isTermChar c = true)
    (hcs : TermBody cs) : TermBody (ds ++ cs) := by
  induction ds with
  | nil => exact hcs
  | cons d ds ih =>
    rw [List.forall_mem_cons] at h
    exact .char h.1 (ih h.2)

theorem lowercaseAfter_backslash (before cs : List Char) :
    lowercaseAfter before ('\\' :: cs) = '\\' :: lowercaseAfter ('\\' :: before) cs := by
  rw [lowercaseAfter, if_neg (by decide), show lowerChar '\\' = ['\\'] by decide]
  rfl

theorem TermBody.lowercaseAfter {cs : List Char} (h : TermBody cs) (before : List Char) :
    TermBody (lowercaseAfter before cs) := by
  induction h generalizing before with
  | nil => exact .nil
  | @char c cs hc _ ih =>
    obtain ⟨d, ds, heq, hd, -, hds⟩ := exists_lowercaseAfter_cons before c cs
    rw [heq]
    exact .char (hd hc) (.append hds (ih _))
  | @escape c cs _ ih =>
    obtain ⟨d, ds, heq, -, -, hds⟩ := exists_lowercaseAfter_cons ('\\' :: before) c cs
    rw [lowercaseAfter_backslash, heq]
    exact .escape (.append hds (ih _))

/-- A bare word in lowercase is a bare word. -/
theorem IsWord.lowercase {cs : List Char} (h : IsWord cs) : IsWord (lowercase cs) := by
  refine ⟨h.body.lowercaseAfter [], ?_⟩
  obtain ⟨c, ds, rfl, hstarts⟩ := h.starts
  rw [startsWord, Bool.or_eq_true, beq_iff_eq] at hstarts
  rcases hstarts with hstart | rfl
  · obtain ⟨d, _, heq, -, hd, -⟩ := exists_lowercaseAfter_cons [] c ds
    refine ⟨d, _, heq, ?_⟩
    rw [startsWord, hd hstart, Bool.true_or]
  · exact ⟨_, _, lowercaseAfter_backslash [] ds, by decide⟩

/-! ### Phrases -/

/-- The content of a phrase. -/
inductive PhraseBody : List Char → Prop where
  /-- The end. -/
  | nil : PhraseBody []
  /-- A character that does not end the phrase. -/
  | char {c : Char} {cs : List Char} (hquote : isQuote c = false) (hne : c ≠ '\\')
      (h : PhraseBody cs) : PhraseBody (c :: cs)
  /-- A character after a backslash, where all quotes are straight. -/
  | escape {c : Char} {cs : List Char} (hc : plainQuote c = c) (h : PhraseBody cs) :
      PhraseBody ('\\' :: c :: cs)

theorem plainQuote_plainQuote (c : Char) : plainQuote (plainQuote c) = plainQuote c := by
  by_cases h : isQuote c
  · simp only [plainQuote, h, if_true]
    decide
  · simp only [plainQuote, h, if_false, Bool.false_eq_true]

/-- What follows the opening quote of a phrase, with the closing quote, and the content that is read
from it. -/
inductive PhraseText : List Char → List Char → Prop where
  /-- The closing quote. -/
  | close {q : Char} (hq : isQuote q = true) : PhraseText [q] []
  /-- A character that does not end the phrase. -/
  | char {c : Char} {raw body : List Char} (hquote : isQuote c = false) (hne : c ≠ '\\')
      (h : PhraseText raw body) : PhraseText (c :: raw) (c :: body)
  /-- A character after a backslash. -/
  | escape {c : Char} {raw body : List Char} (h : PhraseText raw body) :
      PhraseText ('\\' :: c :: raw) ('\\' :: plainQuote c :: body)

theorem phraseText_of_phraseBody? {cs body : List Char} {n : Nat}
    (h : phraseBody? cs = some (body, n)) : PhraseText (cs.take n) body := by
  fun_induction phraseBody? cs generalizing body n with
  | case1 => cases h
  | case2 => cases h
  | case3 c cs ih =>
    obtain ⟨⟨body', n'⟩, hbody, heq⟩ := Option.map_eq_some_iff.1 h
    cases heq
    exact .escape (ih hbody)
  | case4 c cs _ _ hquote =>
    cases h
    exact .close hquote
  | case5 c cs hend hescape hquote ih =>
    obtain ⟨⟨body', n'⟩, hbody, heq⟩ := Option.map_eq_some_iff.1 h
    cases heq
    exact .char (by simpa using hquote) (ne_backslash hend hescape) (ih hbody)

theorem PhraseText.phraseBody {raw body : List Char} (h : PhraseText raw body) :
    PhraseBody body := by
  induction h with
  | close _ => exact .nil
  | char hquote hne _ ih => exact .char hquote hne ih
  | escape _ ih => exact .escape (plainQuote_plainQuote _) ih

/-- A phrase ends in a quote. -/
theorem PhraseText.exists_append {raw body : List Char} (h : PhraseText raw body) :
    ∃ front q, raw = front ++ [q] ∧ isQuote q = true := by
  induction h with
  | close hq => exact ⟨[], _, rfl, hq⟩
  | @char c _ _ _ _ _ ih =>
    obtain ⟨front, q, rfl, hq⟩ := ih
    exact ⟨c :: front, q, rfl, hq⟩
  | @escape c _ _ _ ih =>
    obtain ⟨front, q, rfl, hq⟩ := ih
    exact ⟨'\\' :: c :: front, q, rfl, hq⟩

theorem phraseBody?_append {body : List Char} (h : PhraseBody body) (rest : List Char) :
    phraseBody? (body ++ '"' :: rest) = some (body, body.length + 1) := by
  induction h with
  | nil => simp [phraseBody?, isQuote, quoteGlyphs]
  | @char c cs hquote hne h ih =>
    rw [List.cons_append, phraseBody?.eq_4 _ _ (fun h _ => hne h) (fun _ _ h _ => hne h),
      if_neg (by simp [hquote]), ih]
    rfl
  | @escape c cs hc h ih =>
    rw [List.cons_append, List.cons_append, phraseBody?, ih, Option.map_some, hc]
    rfl

/-! ### Regular expressions -/

/-- The content of a regular expression. Slashes stand for themselves. -/
inductive RegexBody : List Char → Prop where
  /-- The end. -/
  | nil : RegexBody []
  /-- A character that is no backslash. -/
  | char {c : Char} {cs : List Char} (hne : c ≠ '\\') (h : RegexBody cs) : RegexBody (c :: cs)
  /-- A character after a backslash that is kept. -/
  | escape {c : Char} {cs : List Char} (hc : c ≠ '/') (h : RegexBody cs) :
      RegexBody ('\\' :: c :: cs)

/-- What follows the opening slash of a regular expression, with the closing slash, and the content
that is read from it. -/
inductive RegexText : List Char → List Char → Prop where
  /-- The closing slash. -/
  | close : RegexText ['/'] []
  /-- A character that does not end the expression. -/
  | char {c : Char} {raw body : List Char} (hslash : c ≠ '/') (hne : c ≠ '\\')
      (h : RegexText raw body) : RegexText (c :: raw) (c :: body)
  /-- A slash after a backslash. -/
  | slash {raw body : List Char} (h : RegexText raw body) :
      RegexText ('\\' :: '/' :: raw) ('/' :: body)
  /-- Another character after a backslash. -/
  | escape {c : Char} {raw body : List Char} (hc : c ≠ '/') (h : RegexText raw body) :
      RegexText ('\\' :: c :: raw) ('\\' :: c :: body)

theorem regexText_of_regexBody? {cs body : List Char} {n : Nat}
    (h : regexBody? cs = some (body, n)) : RegexText (cs.take n) body := by
  fun_induction regexBody? cs generalizing body n with
  | case1 => cases h
  | case2 => cases h
  | case3 c cs ih =>
    obtain ⟨⟨body', n'⟩, hbody, heq⟩ := Option.map_eq_some_iff.1 h
    dsimp only at heq
    split at heq
    · rename_i hc
      cases heq
      rw [hc]
      exact .slash (ih hbody)
    · rename_i hc
      cases heq
      exact .escape hc (ih hbody)
  | case4 =>
    cases h
    exact .close
  | case5 c cs hend hescape hslash ih =>
    obtain ⟨⟨body', n'⟩, hbody, heq⟩ := Option.map_eq_some_iff.1 h
    cases heq
    exact .char hslash (ne_backslash hend hescape) (ih hbody)

theorem RegexText.regexBody {raw body : List Char} (h : RegexText raw body) : RegexBody body := by
  induction h with
  | close => exact .nil
  | char _ hne _ ih => exact .char hne ih
  | slash _ ih => exact .char (by decide) ih
  | escape hc _ ih => exact .escape hc ih

/-- A regular expression ends in a slash. -/
theorem RegexText.exists_append {raw body : List Char} (h : RegexText raw body) :
    ∃ front, raw = front ++ ['/'] := by
  induction h with
  | close => exact ⟨[], rfl⟩
  | @char c _ _ _ _ _ ih =>
    obtain ⟨front, rfl⟩ := ih
    exact ⟨c :: front, rfl⟩
  | slash _ ih =>
    obtain ⟨front, rfl⟩ := ih
    exact ⟨'\\' :: '/' :: front, rfl⟩
  | @escape c _ _ _ _ ih =>
    obtain ⟨front, rfl⟩ := ih
    exact ⟨'\\' :: c :: front, rfl⟩

theorem regexBody?_append {body : List Char} (h : RegexBody body) (rest : List Char) :
    regexBody? (Expr.escapeSlashes body ++ '/' :: rest) =
      some (body, (Expr.escapeSlashes body).length + 1) := by
  induction h with
  | nil => simp [Expr.escapeSlashes, regexBody?]
  | @char c cs hne h ih =>
    by_cases hslash : c = '/'
    · have hcut : Expr.escapeSlashes (c :: cs) = '\\' :: '/' :: Expr.escapeSlashes cs := by
        rw [hslash]; rfl
      rw [hcut, List.cons_append, List.cons_append, regexBody?, ih, hslash]
      rfl
    · have hcut : Expr.escapeSlashes (c :: cs) = c :: Expr.escapeSlashes cs := by
        rw [Expr.escapeSlashes, List.flatMap_cons, if_neg hslash]; rfl
      rw [hcut, List.cons_append, regexBody?.eq_4 _ _ (fun h _ => hne h) (fun _ _ h _ => hne h),
        if_neg hslash, ih]
      rfl
  | @escape c cs hc h ih =>
    have hcut : Expr.escapeSlashes ('\\' :: c :: cs) = '\\' :: c :: Expr.escapeSlashes cs := by
      rw [Expr.escapeSlashes, List.flatMap_cons, List.flatMap_cons, if_neg hc,
        if_neg (by decide)]
      rfl
    rw [hcut, List.cons_append, List.cons_append, regexBody?, ih, Option.map_some]
    dsimp only
    rw [if_neg hc]
    rfl

/-! ### Degrees -/

theorem negative_of_degree {cs : List Char} {d : Decimal} (h : (degree cs).1 = some d) :
    d.negative = false := by
  rw [degree] at h
  split at h
  · rename_i hd
    cases h
    exact Decimal.negative_of_ofChars? (fun c hc => List.mem_takeWhile_imp hc) hd
  · cases h

/-- What is read as a degree. -/
theorem isNumeralChar_of_degree {cs : List Char} :
    ∀ c ∈ cs.take (degree cs).2, Decimal.isNumeralChar c = true := by
  intro c hc
  rw [degree] at hc
  split at hc
  · rw [← List.prefix_iff_eq_take.1 (List.takeWhile_prefix _)] at hc
    exact List.mem_takeWhile_imp hc
  · simp at hc

theorem degree_append {d : Decimal} (hd : d.negative = false) {rest : List Char}
    (hrest : EndsAt Decimal.isNumeralChar rest) :
    degree (d.chars ++ rest) = (some d, d.chars.length) := by
  have hrun : (d.chars ++ rest).takeWhile (fun c => c.isDigit || c == '.') = d.chars :=
    takeWhile_append_eq (fun _ => Decimal.isNumeralChar_of_mem_chars hd) hrest
  rw [degree, hrun, Decimal.ofChars?_chars hd]

/-! ### What the reader yields -/

/-- The lexeme is one that the reader may make of the text `raw`. -/
def Lexeme.Readable (raw : String) : Lexeme → Prop
  | .term v => IsWord v.toList ∧ v ≠ "TO" ∧ v ≠ "to"
  | .to => raw = "TO" ∨ raw = "to"
  | .phrase v => PhraseBody v.toList
  | .regex v => RegexBody v.toList
  | .url v => IsUrl v.toList
  | .doi v => IsDoi v.toList
  | .approx degree | .boost degree => ∀ d ∈ degree, d.negative = false
  | _ => True

/-- The lexeme of the token is one that the reader may make of its text. -/
def Token.Readable (t : Token) : Prop := t.lexeme.Readable t.raw

theorem isTermChar_of_isTermStart {c : Char} (h : isTermStart c = true) : isTermChar c = true := by
  rw [isTermStart, Bool.and_eq_true] at h
  exact h.1

theorem isWord_take {c : Char} {cs : List Char}
    (h : (isTermStart c || (c == '\\' && !cs.isEmpty)) = true) :
    ∃ n, termLength (c :: cs) = n + 1 ∧ IsWord (c :: cs.take n) := by
  have hbody := termBody_take (c :: cs)
  obtain ⟨n, hn⟩ : ∃ n, termLength (c :: cs) = n + 1 := by
    rw [Bool.or_eq_true, Bool.and_eq_true, beq_iff_eq] at h
    rcases h with hstart | ⟨rfl, hne⟩
    · exact ⟨_, termLength_cons (isTermChar_of_isTermStart hstart) cs⟩
    · cases cs with
      | nil => simp at hne
      | cons d ds => exact ⟨_, by rw [termLength]⟩
  rw [hn, List.take_succ_cons] at hbody
  refine ⟨n, hn, hbody, c, _, rfl, ?_⟩
  rw [Bool.or_eq_true, Bool.and_eq_true] at h
  rw [startsWord, Bool.or_eq_true]
  exact h.imp_right And.left

theorem readable_ofWord {cs : List Char} (h : IsWord cs) :
    (Lexeme.ofWord (String.ofList cs)).Readable (String.ofList cs) := by
  rw [Lexeme.ofWord]
  split
  · rename_i hreserved
    show _ ∨ _
    simpa using hreserved
  · rename_i hfree
    rw [Bool.or_eq_true, not_or, decide_eq_true_eq, decide_eq_true_eq] at hfree
    exact ⟨by rwa [String.toList_ofList], hfree⟩

/-- The lexemes of one character. -/
def Lexeme.ofMarks : List (Char × Lexeme) :=
  [('+', .plus), ('-', .minus), (':', .colon), ('(', .lparen), (')', .rparen),
    ('[', .lbracket true), ('\x7b', .lbracket false), (']', .rbracket true),
    ('\x7d', .rbracket false)]

/-- The reader takes the text for the lexeme. -/
inductive Lexeme.ReadFrom : List Char → Lexeme → Prop where
  /-- An address. -/
  | url {c : Char} {cs : List Char} {l : Lexeme} {n : Nat} (h : readUrl? c cs = some (l, n)) :
      ReadFrom (c :: cs.take n) l
  /-- An identifier. -/
  | doi {c : Char} {cs : List Char} {l : Lexeme} {n : Nat} (h : readDoi? c cs = some (l, n)) :
      ReadFrom (c :: cs.take n) l
  /-- A bare word. -/
  | word {raw : List Char} (h : IsWord raw) : ReadFrom raw (.ofWord (String.ofList raw))
  /-- A phrase. -/
  | phrase {q : Char} {raw body : List Char} (hq : isQuote q = true) (h : PhraseText raw body) :
      ReadFrom (q :: raw) (.phrase (String.ofList body))
  /-- A regular expression. -/
  | regex {raw body : List Char} (h : RegexText raw body) :
      ReadFrom ('/' :: raw) (.regex (String.ofList body))
  /-- A tilde with its degree. -/
  | approx (cs : List Char) : ReadFrom ('~' :: cs.take (degree cs).2) (.approx (degree cs).1)
  /-- A caret with its degree. -/
  | boost (cs : List Char) : ReadFrom ('^' :: cs.take (degree cs).2) (.boost (degree cs).1)
  /-- One character. -/
  | mark {c : Char} {l : Lexeme} (h : (c, l) ∈ ofMarks) : ReadFrom [c] l

theorem readFrom_of_readOperator? {prev : Option Char} {c : Char} {cs : List Char} {l : Lexeme}
    {n : Nat} (h : readOperator? prev c cs = some (l, n)) : l.ReadFrom (c :: cs.take n) := by
  rw [readOperator?.eq_def] at h
  split at h
  case h_1 =>
    obtain ⟨⟨body, k⟩, hbody, heq⟩ := Option.map_eq_some_iff.1 h
    cases heq
    exact .regex (regexText_of_regexBody? hbody)
  case h_2 =>
    cases h
    exact .approx cs
  case h_3 =>
    cases h
    exact .boost cs
  case h_4 | h_5 | h_6 =>
    rw [Option.ite_none_right_eq_some] at h
    obtain ⟨-, h⟩ := h
    cases h
    exact .mark (by simp [Lexeme.ofMarks])
  case h_13 => cases h
  all_goals
    cases h
    exact .mark (by simp [Lexeme.ofMarks])

/-- **What the reader takes.** All that holds of the text of a lexeme is derived from here. -/
theorem readFrom_of_readLexeme? {prev : Option Char} {c : Char} {cs : List Char} {l : Lexeme}
    {n : Nat} (h : readLexeme? prev c cs = some (l, n)) : l.ReadFrom (c :: cs.take n) := by
  rw [readLexeme?] at h
  split at h
  · cases h
  simp only [Option.orElse_eq_orElse, Option.orElse_eq_or, Option.or_eq_some_iff] at h
  rcases h with hurl | ⟨-, hdoi | ⟨-, hplain⟩⟩
  · exact .url hurl
  · exact .doi hdoi
  rw [readPlain?] at hplain
  split at hplain
  · rename_i hstarts
    obtain ⟨k, hk, hword⟩ := isWord_take hstarts
    rw [hk] at hplain
    cases hplain
    exact .word hword
  split at hplain
  · rename_i hquote
    obtain ⟨⟨body, k⟩, hbody, heq⟩ := Option.map_eq_some_iff.1 hplain
    cases heq
    exact .phrase hquote (phraseText_of_phraseBody? hbody)
  · exact readFrom_of_readOperator? hplain

theorem readFrom_of_mem_tokensFrom {prev : Option Char} {position : Nat} {cs : List Char}
    {t : Token} (h : t ∈ tokensFrom prev position cs) : t.lexeme.ReadFrom t.raw.toList := by
  fun_induction tokensFrom prev position cs with
  | case1 => cases h
  | case2 prev position c cs hnone ih => exact ih h
  | case3 prev position c cs lexeme n hsome raw ih =>
    rcases List.mem_cons.1 h with rfl | hrest
    · rw [String.toList_ofList]
      exact readFrom_of_readLexeme? hsome
    · exact ih hrest

/-- **The reader yields readable lexemes only.** -/
theorem Lexeme.ReadFrom.readable {raw : List Char} {l : Lexeme} (h : l.ReadFrom raw) :
    l.Readable (String.ofList raw) := by
  cases h with
  | url h =>
    obtain ⟨v, rfl, hv⟩ := isUrl_of_readUrl? h
    exact hv
  | doi h =>
    obtain ⟨v, rfl, hv⟩ := isDoi_of_readDoi? h
    exact hv
  | word h => exact readable_ofWord h
  | phrase _ h =>
    rw [Readable, String.toList_ofList]
    exact h.phraseBody
  | regex h =>
    rw [Readable, String.toList_ofList]
    exact h.regexBody
  | approx cs => exact fun d hd => negative_of_degree hd
  | boost cs => exact fun d hd => negative_of_degree hd
  | mark h =>
    simp only [ofMarks, List.mem_cons, List.not_mem_nil, or_false, Prod.mk.injEq] at h
    rcases h with ⟨-, rfl⟩ | ⟨-, rfl⟩ | ⟨-, rfl⟩ | ⟨-, rfl⟩ | ⟨-, rfl⟩ | ⟨-, rfl⟩ | ⟨-, rfl⟩ |
      ⟨-, rfl⟩ | ⟨-, rfl⟩ <;> trivial

theorem readable_of_mem_tokensFrom {prev : Option Char} {position : Nat} {cs : List Char}
    {t : Token} (h : t ∈ tokensFrom prev position cs) : t.Readable := by
  have hread := (readFrom_of_mem_tokensFrom h).readable
  rwa [String.ofList_toList] at hread

theorem readable_of_mem_tokenize {s : String} {t : Token} (h : t ∈ tokenize s) : t.Readable :=
  readable_of_mem_tokensFrom h

/-! ### Where tokens stand -/

theorem position_le_of_mem_tokensFrom {prev : Option Char} {position : Nat} {cs : List Char}
    {t : Token} (h : t ∈ tokensFrom prev position cs) : position ≤ t.position := by
  fun_induction tokensFrom prev position cs with
  | case1 => cases h
  | case2 prev position c cs hnone ih => exact (Nat.le_add_right ..).trans (ih h)
  | case3 prev position c cs lexeme n hsome raw ih =>
    rcases List.mem_cons.1 h with rfl | hrest
    · exact Nat.le_refl position
    · exact (Nat.le_add_right ..).trans (ih hrest)

theorem pairwise_position_tokensFrom (prev : Option Char) (position : Nat) (cs : List Char) :
    (tokensFrom prev position cs).Pairwise (·.position < ·.position) := by
  fun_induction tokensFrom prev position cs with
  | case1 => exact .nil
  | case2 prev position c cs hnone ih => exact ih
  | case3 prev position c cs lexeme n hsome raw ih =>
    refine .cons (fun t ht => ?_) ih
    have hraw : 0 < byteLength raw := (Nat.add_pos_left c.utf8Size_pos _)
    exact (Nat.lt_add_of_pos_right hraw).trans_le (position_le_of_mem_tokensFrom ht)

/-- Each token of a text stands after those before it. -/
theorem pairwise_position_tokenize (s : String) :
    (tokenize s).Pairwise (·.position < ·.position) :=
  pairwise_position_tokensFrom none 0 s.toList

end SearchQuery
