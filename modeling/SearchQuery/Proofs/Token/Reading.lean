import SearchQuery.Proofs.Token.Lexemes

/-!
# Lexemes are read back

The text of a lexeme, put before a rest that does not go on with it, is read as that lexeme, and
the tokens of the rest follow.

## Neighbours on both sides

What a text is read as may depend on what stands around it: a sign needs something after it, a
colon something on both sides, and a word is taken as part of an address or identifier if it looks
like the beginning of one. `Lexes` fixes what follows and leaves open what precedes, with the one
exception of the colon: so the name of a field and its colon are read in one step.

## Main definitions

* `beginsIdentifier` — an address or identifier begins the text
* `Delimited` — what may follow a unit that is written
* `Lexes` — what a text before a given rest is read as

## Main results

* `Lexes.append` — texts side by side
* `lexes_word`, `lexes_name`, `lexes_phrase`, `lexes_regex`, `lexes_url`, `lexes_doi`,
  `lexes_operator`, `lexes_degree` — the lexemes are read back
-/

namespace SearchQuery

open Text

/-! ### Single lexemes -/

/-- Whether an address or an identifier begins the text. -/
def beginsIdentifier : List Char → Bool
  | [] => false
  | c :: cs => (readUrl? c cs).isSome || (readDoi? c cs).isSome

/-- What may follow a unit that is written. -/
def delimiters : List Char := [' ', ')', '^', '~', ']', '\x7d']

/-- Nothing follows, or a character that ends every unit. -/
def Delimited (rest : List Char) : Prop := ∀ c ∈ rest.head?, c ∈ delimiters

@[simp] theorem delimited_nil : Delimited [] := by simp [Delimited]

@[simp] theorem delimited_cons {c : Char} {rest : List Char} :
    Delimited (c :: rest) ↔ c ∈ delimiters := by simp [Delimited]

theorem delimited_to (rest : List Char) : Delimited (" TO ".toList ++ rest) := by
  rw [show " TO ".toList = [' ', 'T', 'O', ' '] from rfl, List.cons_append, delimited_cons]
  decide

theorem Delimited.endsAt {p : Char → Bool} {rest : List Char} (h : Delimited rest)
    (hp : (delimiters.all fun c => !p c) = true) : EndsAt p rest := by
  have hall : ∀ c ∈ delimiters, p c = false := by simpa using hp
  exact fun c hc => hall c (h c hc)

theorem termLength_eq_zero {c : Char} (h : isTermChar c = false) (hne : c ≠ '\\')
    (cs : List Char) : termLength (c :: cs) = 0 := by
  rw [termLength.eq_4 _ _ (fun h _ => hne h) (fun _ _ h _ => hne h), if_neg (by simp [h])]

theorem Delimited.termLength_eq_zero {rest : List Char} (h : Delimited rest) :
    termLength rest = 0 := by
  cases rest with
  | nil => rfl
  | cons c rest =>
    have hall : ∀ c ∈ delimiters, isTermChar c = false ∧ c ≠ '\\' :=
      forall_mem_of_all (by decide)
    have hc := hall c (delimited_cons.1 h)
    exact SearchQuery.termLength_eq_zero hc.1 hc.2 rest

/-- The characters that phrases, regular expressions and operators begin with. -/
def marks : List Char :=
  ['"', '/', '~', '^', '+', '-', ':', '(', ')', '[', ']', '\x7b', '\x7d']

theorem readLexeme?_of_mem_marks {c : Char} (hc : c ∈ marks) (prev : Option Char)
    (cs : List Char) : readLexeme? prev c cs = readPlain? prev c cs := by
  have hall : ∀ c ∈ marks, isBlank c = false ∧ Url.isLetter 'h' c = false ∧
      Url.isLetter 'w' c = false ∧ c ≠ '1' := forall_mem_of_all (by decide)
  obtain ⟨hblank, hh, hw, hne⟩ := hall c hc
  rw [readLexeme?, if_neg (by simp [hblank]), readUrl?_eq_none hh hw, readDoi?_eq_none hne]
  rfl

theorem readLexeme?_operator {c : Char} (hc : c ∈ marks.tail) (prev : Option Char)
    (cs : List Char) : readLexeme? prev c cs = readOperator? prev c cs := by
  have hall : ∀ c ∈ marks.tail, isTermStart c = false ∧ c ≠ '\\' ∧ isQuote c = false :=
    forall_mem_of_all (by decide)
  obtain ⟨hstart, hne, hquote⟩ := hall c hc
  rw [readLexeme?_of_mem_marks (List.mem_of_mem_tail hc), readPlain?,
    if_neg (by simp [hstart, hne]), if_neg (by simp [hquote])]

theorem isBlank_of_startsWord {c : Char} (h : startsWord c = true) : isBlank c = false := by
  rw [startsWord, Bool.or_eq_true, beq_iff_eq] at h
  rcases h with hstart | rfl
  · have hchar := isTermChar_of_isTermStart hstart
    simp only [isTermChar, Bool.and_eq_true, Bool.not_eq_true'] at hchar
    exact hchar.1.1
  · decide

theorem readLexeme?_word {c : Char} {cs rest : List Char} (h : IsWord (c :: cs))
    (hrest : termLength rest = 0) (hfree : beginsIdentifier (c :: cs ++ rest) = false)
    (prev : Option Char) : readLexeme? prev c (cs ++ rest) =
      some (.ofWord (String.ofList (c :: cs)), cs.length) := by
  obtain ⟨_, _, heq, hstarts⟩ := h.starts
  cases heq
  simp only [List.cons_append, beginsIdentifier, Bool.or_eq_false_iff, Option.isSome_eq_false_iff,
    Option.isNone_iff_eq_none] at hfree
  have hlength : termLength (c :: (cs ++ rest)) = cs.length + 1 := by
    rw [← List.cons_append, termLength_append h.body, hrest, List.length_cons, Nat.add_zero]
  have hbegins : (isTermStart c || (c == '\\' && !(cs ++ rest).isEmpty)) = true := by
    rw [startsWord, Bool.or_eq_true, beq_iff_eq] at hstarts
    rcases hstarts with hstart | rfl
    · rw [hstart, Bool.true_or]
    · -- the backslash has its character in the word
      have hbody := h.body
      cases hbody with
      | char hc _ => exact absurd rfl (ne_backslash_of_isTermChar hc)
      | escape _ => rfl
  have htake : (c :: (cs ++ rest)).take (cs.length + 1) = c :: cs := by
    rw [List.take_succ_cons, List.take_left]
  rw [readLexeme?, if_neg (by simp [isBlank_of_startsWord hstarts]), hfree.1, hfree.2]
  simp only [readPlain?, if_pos hbegins, hlength, htake]
  rfl

/-! ### Texts before a rest -/

theorem tokensFrom_of_read {prev : Option Char} {c : Char} {cs rest : List Char} {l : Lexeme}
    (h : readLexeme? prev c (cs ++ rest) = some (l, cs.length)) (position : Nat) :
    tokensFrom prev position (c :: cs ++ rest) = ⟨l, String.ofList (c :: cs), position⟩ ::
      tokensFrom (c :: cs).getLast? (position + byteLength (c :: cs)) rest := by
  rw [List.cons_append, tokensFrom, h]
  dsimp only
  rw [List.take_left, List.drop_left]

theorem tokensFrom_of_skip {prev : Option Char} {c : Char} {cs : List Char}
    (h : readLexeme? prev c cs = none) (position : Nat) :
    tokensFrom prev position (c :: cs) = tokensFrom (some c) (position + c.utf8Size) cs := by
  rw [tokensFrom, h]

/-- Wherever the text stands before `rest`, its tokens satisfy `P` and the tokens of `rest`
follow. -/
def Lexes (cs rest : List Char) (P : List Token → Prop) : Prop :=
  ∀ prev position, ∃ ts prev' position',
    tokensFrom prev position (cs ++ rest) = ts ++ tokensFrom prev' position' rest ∧ P ts

variable {P Q : List Token → Prop} {cs ds rest : List Char}

theorem Lexes.mono (h : Lexes cs rest P) (hPQ : ∀ ts, P ts → Q ts) : Lexes cs rest Q := by
  intro prev position
  obtain ⟨ts, prev', position', hts, hP⟩ := h prev position
  exact ⟨ts, prev', position', hts, hPQ ts hP⟩

theorem Lexes.append (h : Lexes cs (ds ++ rest) P) (h' : Lexes ds rest Q) :
    Lexes (cs ++ ds) rest fun ts => ∃ us vs, ts = us ++ vs ∧ P us ∧ Q vs := by
  intro prev position
  obtain ⟨us, prev', position', hus, hP⟩ := h prev position
  obtain ⟨vs, prev'', position'', hvs, hQ⟩ := h' prev' position'
  refine ⟨us ++ vs, prev'', position'', ?_, us, vs, rfl, hP, hQ⟩
  rw [List.append_assoc, hus, hvs, List.append_assoc]

/-- The text is one token. -/
def IsToken (l : Lexeme) (raw : List Char) (ts : List Token) : Prop :=
  ∃ t, ts = [t] ∧ t.lexeme = l ∧ t.raw = String.ofList raw

/-- The tokens are one token with the lexeme. -/
def IsLexeme (l : Lexeme) (ts : List Token) : Prop := ∃ t, ts = [t] ∧ t.lexeme = l

theorem IsToken.isLexeme {l : Lexeme} {raw : List Char} {ts : List Token} (h : IsToken l raw ts) :
    IsLexeme l ts := by
  obtain ⟨t, hts, ht, -⟩ := h
  exact ⟨t, hts, ht⟩

theorem Lexes.of_read {c : Char} {l : Lexeme}
    (h : ∀ prev, readLexeme? prev c (cs ++ rest) = some (l, cs.length)) :
    Lexes (c :: cs) rest (IsToken l (c :: cs)) := fun prev position =>
  ⟨[_], _, _, tokensFrom_of_read (h prev) position, _, rfl, rfl, rfl⟩

theorem lexes_space : Lexes [' '] rest (· = []) := fun _ position =>
  ⟨[], _, _, tokensFrom_of_skip (if_pos (by decide)) position, rfl⟩

theorem tokensFrom_word (h : IsWord cs) (hrest : termLength rest = 0)
    (hfree : beginsIdentifier (cs ++ rest) = false) (prev : Option Char) (position : Nat) :
    tokensFrom prev position (cs ++ rest) =
      ⟨.ofWord (String.ofList cs), String.ofList cs, position⟩ ::
        tokensFrom cs.getLast? (position + byteLength cs) rest := by
  obtain ⟨c, ds, rfl, -⟩ := h.starts
  exact tokensFrom_of_read (readLexeme?_word h hrest hfree prev) position

theorem lexes_word (h : IsWord cs) (hrest : termLength rest = 0)
    (hfree : beginsIdentifier (cs ++ rest) = false) :
    Lexes cs rest (IsToken (.ofWord (String.ofList cs)) cs) := fun prev position =>
  ⟨[_], _, _, tokensFrom_word h hrest hfree prev position, _, rfl, rfl, rfl⟩

/-! ### Names of fields -/

/-- Whether the last character is a blank. -/
def endsInBlank (cs : List Char) : Bool := cs.getLast?.any isBlank

theorem termLength_colon (cs : List Char) : termLength (':' :: cs) = 0 :=
  termLength_eq_zero (by decide) (by decide) cs

/-- A name and its colon. -/
theorem lexes_name (h : IsWord cs) (hend : endsInBlank cs = false) (hrest : touches rest = true)
    (hfree : beginsIdentifier (cs ++ ':' :: rest) = false) :
    Lexes (cs ++ [':']) rest fun ts =>
      ∃ t u, ts = [t, u] ∧ t.lexeme = .ofWord (String.ofList cs) ∧ u.lexeme = .colon := by
  intro prev position
  have hcolon : readLexeme? cs.getLast? ':' rest = some (.colon, 0) := by
    have hprev : touches cs.getLast?.toList = true := by
      obtain ⟨c, ds, rfl, -⟩ := h.starts
      rw [endsInBlank, List.getLast?_cons, Option.any_some] at hend
      rw [List.getLast?_cons, Option.toList_some, touches, hend]
      rfl
    rw [readLexeme?_operator (by decide), readOperator?, hprev, hrest]
    rfl
  have hname := tokensFrom_word h (termLength_colon rest) hfree prev position
  have htail := tokensFrom_of_read (show readLexeme? cs.getLast? ':' ([] ++ rest) =
    some (.colon, ([] : List Char).length) from hcolon) (position + byteLength cs)
  rw [List.append_assoc]
  exact ⟨[_, _], _, _, hname.trans (congrArg _ htail), _, _, rfl, rfl, rfl⟩

/-- A colon after a blank is passed over. -/
theorem tokensFrom_name_of_endsInBlank (h : IsWord cs) (hend : endsInBlank cs = true)
    (hfree : beginsIdentifier (cs ++ ':' :: rest) = false) (prev : Option Char) (position : Nat) :
    ∃ t prev' position', t.lexeme = .ofWord (String.ofList cs) ∧
      tokensFrom prev position (cs ++ ':' :: rest) = t :: tokensFrom prev' position' rest := by
  have hcolon : readLexeme? cs.getLast? ':' rest = none := by
    obtain ⟨c, ds, rfl, -⟩ := h.starts
    rw [endsInBlank, List.getLast?_cons, Option.any_some] at hend
    rw [readLexeme?_operator (by decide), readOperator?, List.getLast?_cons, Option.toList_some,
      touches, hend]
    rfl
  have hname := tokensFrom_word h (termLength_colon rest) hfree prev position
  rw [tokensFrom_of_skip hcolon] at hname
  exact ⟨_, _, _, rfl, hname⟩

/-- What begins an identifier is no word. -/
theorem tokensFrom_of_beginsIdentifier {c : Char} (hblank : isBlank c = false)
    (h : beginsIdentifier (c :: cs) = true) (prev : Option Char) (position : Nat) :
    ∃ t ts, tokensFrom prev position (c :: cs) = t :: ts ∧
      ∃ v, t.lexeme = .url v ∨ t.lexeme = .doi v := by
  have hread : ∃ l n, readLexeme? prev c cs = some (l, n) ∧ ∃ v, l = .url v ∨ l = .doi v := by
    rw [beginsIdentifier, Bool.or_eq_true, Option.isSome_iff_exists, Option.isSome_iff_exists] at h
    rw [readLexeme?, if_neg (by simp [hblank])]
    cases hurl : readUrl? c cs with
    | some r =>
      obtain ⟨v, hv, -⟩ := isUrl_of_readUrl? hurl
      exact ⟨_, _, rfl, v, .inl hv⟩
    | none =>
      rw [hurl] at h
      obtain ⟨r, hdoi⟩ := h.resolve_left (by simp)
      obtain ⟨v, hv, -⟩ := isDoi_of_readDoi? hdoi
      rw [hdoi]
      exact ⟨_, _, rfl, v, .inr hv⟩
  obtain ⟨l, n, hread, v, hv⟩ := hread
  rw [tokensFrom, hread]
  exact ⟨_, _, rfl, v, hv⟩

theorem lexes_phrase (h : PhraseBody cs) (rest : List Char) :
    Lexes ('"' :: cs ++ ['"']) rest
      (IsToken (.phrase (String.ofList cs)) ('"' :: cs ++ ['"'])) := by
  rw [List.cons_append]
  refine .of_read fun prev => ?_
  have hstart : isTermStart '"' = false := by decide
  rw [readLexeme?_of_mem_marks (by decide), readPlain?, if_neg (by simp [hstart]),
    if_pos (by decide), List.append_assoc, List.singleton_append, phraseBody?_append h]
  simp

theorem lexes_regex (h : RegexBody cs) (rest : List Char) :
    Lexes ('/' :: Expr.escapeSlashes cs ++ ['/']) rest
      (IsToken (.regex (String.ofList cs)) ('/' :: Expr.escapeSlashes cs ++ ['/'])) := by
  rw [List.cons_append]
  refine .of_read fun prev => ?_
  rw [readLexeme?_operator (by decide), readOperator?, List.append_assoc, List.singleton_append,
    regexBody?_append h]
  simp

theorem lexes_operator {c : Char} {l : Lexeme} (hc : c ∈ marks.tail)
    (h : ∀ prev, readOperator? prev c rest = some (l, 0)) : Lexes [c] rest (IsToken l [c]) :=
  .of_read fun prev => (readLexeme?_operator hc prev rest).trans (h prev)

theorem lexes_lparen (rest : List Char) : Lexes ['('] rest (IsLexeme .lparen) :=
  (lexes_operator (by decide) fun _ => rfl).mono fun _ => IsToken.isLexeme

theorem lexes_rparen (rest : List Char) : Lexes [')'] rest (IsLexeme .rparen) :=
  (lexes_operator (by decide) fun _ => rfl).mono fun _ => IsToken.isLexeme

theorem lexes_lbracket (inclusive : Bool) (rest : List Char) :
    Lexes [if inclusive then '[' else '\x7b'] rest (IsLexeme (.lbracket inclusive)) := by
  refine (lexes_operator (by cases inclusive <;> decide) fun _ => ?_).mono
    fun _ => IsToken.isLexeme
  cases inclusive <;> rfl

theorem lexes_rbracket (inclusive : Bool) (rest : List Char) :
    Lexes [if inclusive then ']' else '\x7d'] rest (IsLexeme (.rbracket inclusive)) := by
  refine (lexes_operator (by cases inclusive <;> decide) fun _ => ?_).mono
    fun _ => IsToken.isLexeme
  cases inclusive <;> rfl

theorem lexes_plus (h : touches rest = true) : Lexes ['+'] rest (IsLexeme .plus) := by
  refine (lexes_operator (by decide) fun _ => ?_).mono fun _ => IsToken.isLexeme
  rw [readOperator?, h, if_pos rfl]

theorem lexes_minus (h : touches rest = true) : Lexes ['-'] rest (IsLexeme .minus) := by
  refine (lexes_operator (by decide) fun _ => ?_).mono fun _ => IsToken.isLexeme
  rw [readOperator?, h, if_pos rfl]

theorem lexes_degree {d : Decimal} (hd : d.negative = false) (hrest : Delimited rest) {c : Char}
    {l : Option Decimal → Lexeme} (hc : c ∈ marks.tail)
    (h : ∀ prev cs, readOperator? prev c cs = some (l (degree cs).1, (degree cs).2)) :
    Lexes (c :: d.chars) rest (IsToken (l (some d)) (c :: d.chars)) := by
  refine .of_read fun prev => ?_
  rw [readLexeme?_operator hc, h, degree_append hd (hrest.endsAt (by decide))]

theorem lexes_url (h : IsUrl cs) (hrest : Delimited rest) :
    Lexes cs rest (IsToken (.url (String.ofList cs)) cs) := by
  obtain ⟨o, body, hcs, ho, -⟩ := id h
  obtain ⟨c, ds, rfl, halnum⟩ := ho.exists_cons
  cases hcs
  refine .of_read fun prev => ?_
  rw [readLexeme?, if_neg (by simp [isBlank_of_isAlphanum halnum]),
    readUrl?_of_isUrl h (hrest.endsAt (by decide))]
  rfl

theorem lexes_doi (h : IsDoi cs) (hrest : Delimited rest) :
    Lexes cs rest (IsToken (.doi (String.ofList cs)) cs) := by
  obtain ⟨ds, name, last, hcs, -⟩ := h.parts
  cases hcs
  refine .of_read fun prev => ?_
  rw [readLexeme?, if_neg (by decide), readUrl?_eq_none (by decide) (by decide),
    readDoi?_of_isDoi h (hrest.endsAt (by decide)) (hrest.endsAt (by decide))]
  rfl

end SearchQuery
