import SearchQuery.Proofs.Text.Brackets
import SearchQuery.Proofs.Token.Reading

/-!
# Tokens of a text without unmatched brackets

The unmatched brackets are taken from a text before it is cut into tokens. What is left is nested,
so one would expect its bracket tokens to be nested as well.

## Where both disagree

A backslash hides the character after it from both. But only the reader of tokens knows phrases,
regular expressions and addresses: a bracket inside a phrase or regular expression counts for the
one and is plain text for the other, and an address takes a backslash at its end without the
character after it. `Lexeme.Intact` asks of a token that it is no such case, of each token by
itself: a phrase or regular expression whose own brackets are nested, an address whose backslashes
have their characters. Nothing is asked of the other tokens. For them the depth after a text and
the depth after its tokens are the same, wherever they stand.

## Main definitions

* `Token.opens`, `Token.closes` — the tokens that are brackets of a kind
* `Token.Intact` — the brackets inside the token do not count
* `Quiet` — a text that changes no depth

## Main results

* `depthAfter_tokensFrom` — the tokens change the depth as the characters do
* `nested_tokenize_removeUnmatched` — the bracket tokens are nested if all tokens are intact
* `not_nested_tokenize_of_quoted_closer` — a bracket in a phrase keeps another one
-/

namespace SearchQuery

open Text

variable {kind : BracketKind}

/-! ### Brackets among the tokens -/

/-- Whether the lexeme is an opening bracket of the kind. Angle brackets are no lexemes. -/
def Lexeme.opens : BracketKind → Lexeme → Bool
  | .round, .lparen => true
  | .range, .lbracket _ => true
  | _, _ => false

/-- Whether the lexeme is a closing bracket of the kind. -/
def Lexeme.closes : BracketKind → Lexeme → Bool
  | .round, .rparen => true
  | .range, .rbracket _ => true
  | _, _ => false

/-- Whether the token is an opening bracket of the kind. -/
def Token.opens (kind : BracketKind) (t : Token) : Bool := t.lexeme.opens kind

/-- Whether the token is a closing bracket of the kind. -/
def Token.closes (kind : BracketKind) (t : Token) : Bool := t.lexeme.closes kind

/-- The characters of the lexeme count for the scan as the lexeme does for the reader. -/
def Lexeme.Intact (kind : BracketKind) (raw : List Char) : Lexeme → Prop
  | .phrase _ | .regex _ => Nested (isOpener kind) (isCloser kind) (exposure raw)
  | .url _ => Paired raw
  | _ => True

/-- The brackets inside a phrase or regular expression are nested, and every backslash of an
address has its character. -/
def Token.Intact (kind : BracketKind) (t : Token) : Prop := t.lexeme.Intact kind t.raw.toList

theorem Token.closes_eq_false_of_opens (t : Token) (h : t.opens kind = true) :
    t.closes kind = false := by
  rw [Token.opens] at h
  rw [Token.closes]
  cases kind <;> cases hl : t.lexeme <;> rw [hl] at h <;> first | rfl | cases h

/-- The lexeme is none of the brackets. -/
def Lexeme.IsBracket : Lexeme → Prop
  | .lparen | .rparen | .lbracket _ | .rbracket _ => True
  | _ => False

theorem depthAfter_of_not_isBracket {t : Token} (h : ¬t.lexeme.IsBracket) (d : Nat) :
    depthAfter (Token.opens kind) (Token.closes kind) d [t] = some d := by
  refine depthAfter_of_forall (fun u hu => ?_) d
  rw [List.mem_singleton.1 hu, Token.opens, Token.closes]
  cases kind <;> cases hl : t.lexeme <;> rw [hl] at h <;>
    first | exact ⟨rfl, rfl⟩ | exact absurd trivial h

/-! ### Texts that change no depth -/

/-- Neither a backslash nor a bracket of the kind. -/
def IsPlain (kind : BracketKind) (c : Char) : Prop :=
  c ≠ '\\' ∧ kind.opens c = false ∧ kind.closes c = false

/-- Every backslash has its character, and no bracket of the kind is exposed. -/
structure Quiet (kind : BracketKind) (cs : List Char) : Prop where
  /-- It hides nothing of what follows. -/
  paired : Paired cs
  /-- Nothing in it counts. -/
  depth : ∀ d, depthAfter (isOpener kind) (isCloser kind) d (exposure cs) = some d

/-- A text that has no bracket of the kind at all. -/
theorem quiet_of_paired {cs : List Char} (h : Paired cs)
    (hcs : ∀ c ∈ cs, kind.opens c = false ∧ kind.closes c = false) : Quiet kind cs := by
  refine ⟨h, depthAfter_of_forall fun m hm => ?_⟩
  have hmem : m.1 ∈ cs := by
    have hmap := List.mem_map_of_mem hm (f := Prod.fst)
    rwa [map_fst_exposure] at hmap
  obtain ⟨hopens, hcloses⟩ := hcs m.1 hmem
  rw [isOpener, isCloser, hopens, hcloses, Bool.and_false]
  exact ⟨rfl, rfl⟩

theorem quiet_of_forall {cs : List Char} (h : ∀ c ∈ cs, IsPlain kind c) : Quiet kind cs :=
  quiet_of_paired (paired_of_forall fun c hc => (h c hc).1) fun c hc => (h c hc).2

/-! ### What the readers take -/

/-- The brackets that are tokens. -/
def tokenBrackets : List Char := ['(', ')', '[', ']', '\x7b', '\x7d']

/-- A character is no bracket of the kind if it is none of those that are tokens. -/
theorem isBracket_eq_false (hkind : kind ≠ .angle) {c : Char} (h : c ∉ tokenBrackets) :
    kind.opens c = false ∧ kind.closes c = false := by
  simp only [tokenBrackets, List.mem_cons, List.not_mem_nil, or_false, not_or] at h
  cases kind with
  | angle => exact absurd rfl hkind
  | _ => simp [BracketKind.opens, BracketKind.closes, h]

theorem not_mem_of_class {p : Char → Bool} {c : Char} {cs : List Char} (h : p c = true)
    (hp : (cs.all fun c => !p c) = true) : c ∉ cs := by
  intro hc
  have hnot := List.all_eq_true.1 hp c hc
  rw [h] at hnot
  cases hnot

theorem isPlain_of_class (hkind : kind ≠ .angle) {p : Char → Bool} {c : Char} (h : p c = true)
    (hp : (('\\' :: tokenBrackets).all fun c => !p c) = true) : IsPlain kind c := by
  have hnot := not_mem_of_class h hp
  rw [List.mem_cons, not_or] at hnot
  exact ⟨hnot.1, isBracket_eq_false hkind hnot.2⟩

theorem isPlain_of_isTermChar (hkind : kind ≠ .angle) {c : Char} (h : isTermChar c = true) :
    IsPlain kind c :=
  isPlain_of_class hkind h (by decide)

/-- A bare word hides or contains no bracket but behind its own backslashes. -/
theorem TermBody.quiet (hkind : kind ≠ .angle) {cs : List Char} (h : TermBody cs) :
    Quiet kind cs := by
  induction h with
  | nil => exact ⟨.nil, fun _ => rfl⟩
  | @char c cs hc _ ih =>
    obtain ⟨hne, hopens, hcloses⟩ := isPlain_of_isTermChar hkind hc
    refine ⟨ih.paired.char hne, fun d => ?_⟩
    rw [exposure_cons hne, depthAfter_cons_other (by simpa [isOpener]) (by simpa [isCloser]),
      ih.depth]
  | @escape c cs _ ih =>
    refine ⟨ih.paired.escape, fun d => ?_⟩
    rw [exposure, depthAfter_cons_other rfl rfl, depthAfter_cons_other rfl rfl, ih.depth]

theorem PhraseText.paired {raw body : List Char} (h : PhraseText raw body) : Paired raw := by
  induction h with
  | @close q hq =>
    refine .char ?_ .nil
    rintro rfl
    exact absurd hq (by decide)
  | char _ hne _ ih => exact ih.char hne
  | escape _ ih => exact ih.escape

theorem RegexText.paired {raw body : List Char} (h : RegexText raw body) : Paired raw := by
  induction h with
  | close => exact .char (by decide) .nil
  | char _ hne _ ih => exact ih.char hne
  | slash _ ih | escape _ _ ih => exact ih.escape

/-- The characters of an address are no brackets. -/
theorem quiet_of_readUrl? (hkind : kind ≠ .angle) {c : Char} {cs : List Char} {l : Lexeme}
    {n : Nat} (h : readUrl? c cs = some (l, n)) (hpaired : Paired (c :: cs.take n)) :
    Quiet kind (c :: cs.take n) :=
  quiet_of_paired hpaired fun d hd => isBracket_eq_false hkind
    (not_mem_of_class (isBodyChar_of_readUrl? h d hd) (by decide))

/-- The characters of an identifier are no brackets. -/
theorem quiet_of_readDoi? (hkind : kind ≠ .angle) {c : Char} {cs : List Char} {l : Lexeme}
    {n : Nat} (h : readDoi? c cs = some (l, n)) : Quiet kind (c :: cs.take n) := by
  obtain ⟨ds, before, after, found, htake, hds, hbefore, hafter, hfound⟩ := take_of_readDoi? h
  have hblank : ∀ c, isBlank c = true → IsPlain kind c := fun c hc =>
    isPlain_of_class hkind hc (by decide)
  have hdigit : ∀ c, isDecimalDigit c = true → IsPlain kind c := fun c hc =>
    isPlain_of_class hkind hc (by decide)
  have hname : ∀ c, Doi.isNameChar c = true → IsPlain kind c := fun c hc =>
    isPlain_of_class hkind hc (by decide)
  rw [htake]
  refine quiet_of_forall fun d hd => ?_
  simp only [List.mem_append, List.mem_cons] at hd
  rcases hd with (((rfl | rfl | rfl | hd) | hd) | rfl | hd) | hd
  · exact hname _ (by decide)
  · exact hname _ (by decide)
  · exact hname _ (by decide)
  · exact hdigit d (hds d hd)
  · exact hblank d (hbefore d hd)
  · exact hname _ (by decide)
  · exact hblank d (hafter d hd)
  · exact hname d (hfound d hd)

/-- The digits and points after a tilde or caret are no brackets. -/
theorem quiet_degree {c : Char} (hc : IsPlain kind c) (hkind : kind ≠ .angle) (cs : List Char) :
    Quiet kind (c :: cs.take (degree cs).2) :=
  quiet_of_forall (List.forall_mem_cons.2 ⟨hc, fun d hd =>
    isPlain_of_class hkind (isNumeralChar_of_degree d hd) (by decide)⟩)

/-! ### Characters and tokens -/

/-- The token changes the depth as its characters do, and hides nothing of what follows. -/
def Faithful (kind : BracketKind) (l : Lexeme) (raw : List Char) : Prop :=
  Paired raw ∧ ∀ position d, depthAfter (isOpener kind) (isCloser kind) d (exposure raw) =
    depthAfter (Token.opens kind) (Token.closes kind) d [⟨l, String.ofList raw, position⟩]

theorem Quiet.faithful {l : Lexeme} {raw : List Char} (h : Quiet kind raw) (hl : ¬l.IsBracket) :
    Faithful kind l raw :=
  ⟨h.paired, fun position d => by rw [h.depth, depthAfter_of_not_isBracket hl]⟩

/-- Brackets of the text and bracket tokens are the same. -/
theorem faithful_mark (hkind : kind ≠ .angle) {c : Char} {l : Lexeme}
    (h : (c, l) ∈ Lexeme.ofMarks) : Faithful kind l [c] := by
  simp only [Lexeme.ofMarks, List.mem_cons, List.not_mem_nil, or_false, Prod.mk.injEq] at h
  rcases h with ⟨rfl, rfl⟩ | ⟨rfl, rfl⟩ | ⟨rfl, rfl⟩ | ⟨rfl, rfl⟩ | ⟨rfl, rfl⟩ | ⟨rfl, rfl⟩ |
    ⟨rfl, rfl⟩ | ⟨rfl, rfl⟩ | ⟨rfl, rfl⟩ <;>
    exact ⟨.char (by decide) .nil, fun _ d => by cases kind <;> cases d <;> rfl⟩

/-- **What the reader takes for an intact token changes the depth as the token does.** -/
theorem Lexeme.ReadFrom.faithful (hkind : kind ≠ .angle) {raw : List Char} {l : Lexeme}
    (h : l.ReadFrom raw) (hintact : l.Intact kind raw) : Faithful kind l raw := by
  have hmark : ∀ c, ['~', '^'].contains c = true → IsPlain kind c := fun c hc =>
    isPlain_of_class hkind hc (by decide)
  cases h with
  | url h =>
    obtain ⟨v, rfl, -⟩ := isUrl_of_readUrl? h
    exact (quiet_of_readUrl? hkind h hintact).faithful id
  | doi h =>
    obtain ⟨v, rfl, -⟩ := isDoi_of_readDoi? h
    exact (quiet_of_readDoi? hkind h).faithful id
  | word h =>
    refine (h.body.quiet hkind).faithful ?_
    rw [ofWord]
    split <;> exact id
  | @phrase q raw _ hq h =>
    have hne : q ≠ '\\' := by rintro rfl; exact absurd hq (by decide)
    have hquiet : Quiet kind (q :: raw) :=
      ⟨h.paired.char hne, hintact.depthAfter_eq isCloser_eq_false_of_isOpener⟩
    exact hquiet.faithful id
  | @regex raw _ h =>
    have hquiet : Quiet kind ('/' :: raw) :=
      ⟨h.paired.char (by decide), hintact.depthAfter_eq isCloser_eq_false_of_isOpener⟩
    exact hquiet.faithful id
  | approx cs | boost cs => exact (quiet_degree (hmark _ (by decide)) hkind cs).faithful id
  | mark h => exact faithful_mark hkind h

/-- What begins no token is no bracket, and a backslash only at the end of the text. -/
theorem of_readLexeme?_eq_none {prev : Option Char} {c : Char} {cs : List Char}
    (h : readLexeme? prev c cs = none) : c ∉ tokenBrackets ∧ (c = '\\' → cs = []) := by
  constructor
  · intro hc
    have hmarks : ∀ c ∈ tokenBrackets, c ∈ marks.tail := forall_mem_of_all (by decide)
    rw [readLexeme?_operator (hmarks c hc)] at h
    simp only [tokenBrackets, List.mem_cons, List.not_mem_nil, or_false] at hc
    rcases hc with rfl | rfl | rfl | rfl | rfl | rfl <;> cases h
  · rintro rfl
    have hblank : isBlank '\\' = false := by decide
    rw [readLexeme?, if_neg (by simp [hblank])] at h
    simp only [Option.orElse_eq_orElse, Option.orElse_eq_or, Option.or_eq_none_iff] at h
    obtain ⟨-, -, hplain⟩ := h
    rw [readPlain?] at hplain
    split at hplain
    · cases hplain
    · rename_i hstarts
      exact (by simpa using hstarts : isTermStart '\\' = false ∧ cs = []).2

/-- **The tokens change the depth as the characters do**, where all tokens are intact. -/
theorem depthAfter_tokensFrom (hkind : kind ≠ .angle) {prev : Option Char} {position : Nat}
    {cs : List Char} (hintact : ∀ t ∈ tokensFrom prev position cs, t.Intact kind) (d : Nat) :
    depthAfter (Token.opens kind) (Token.closes kind) d (tokensFrom prev position cs) =
      depthAfter (isOpener kind) (isCloser kind) d (exposure cs) := by
  fun_induction tokensFrom prev position cs generalizing d with
  | case1 => rfl
  | case2 prev position c cs hnone ih =>
    obtain ⟨hbracket, hend⟩ := of_readLexeme?_eq_none hnone
    obtain ⟨hopens, hcloses⟩ := isBracket_eq_false hkind hbracket
    rw [ih hintact]
    by_cases hc : c = '\\'
    · rw [hend hc, hc]
      rfl
    · rw [exposure_cons hc, depthAfter_cons_other (by simpa [isOpener]) (by simpa [isCloser])]
  | case3 prev position c cs l n hread raw ih =>
    rw [List.forall_mem_cons] at hintact
    have hraw : l.Intact kind raw := by
      rw [← String.toList_ofList (l := raw)]
      exact hintact.1
    obtain ⟨hpaired, hdepth⟩ := (readFrom_of_readLexeme? hread).faithful hkind hraw
    have hsplit : c :: cs = raw ++ cs.drop n := by
      rw [List.cons_append, List.take_append_drop]
    rw [← List.singleton_append, depthAfter_append, hsplit, exposure_append hpaired,
      depthAfter_append, hdepth position, funext (ih hintact.2)]

/-- **The bracket tokens of a text without unmatched brackets are nested**, if the brackets inside
each phrase and regular expression are nested and every backslash of an address has its
character. -/
theorem nested_tokenize_removeUnmatched (s : String) (kind : BracketKind)
    (hintact : ∀ t ∈ tokenize (removeUnmatched s), t.Intact kind) :
    Nested (Token.opens kind) (Token.closes kind) (tokenize (removeUnmatched s)) := by
  rw [nested_iff_depthAfter Token.closes_eq_false_of_opens]
  by_cases hkind : kind = .angle
  · rw [hkind]
    exact depthAfter_of_forall (fun _ _ => ⟨rfl, rfl⟩) 0
  · have hchars := nested_exposure_removeUnmatchedChars kind s.toList
    rw [nested_iff_depthAfter isCloser_eq_false_of_isOpener] at hchars
    rw [tokenize, depthAfter_tokensFrom hkind hintact, removeUnmatched, String.toList_ofList,
      hchars]

theorem nested_tokenize_removeUnmatched_title :
    tokenize (removeUnmatched "title:(\"f(x)\" [1 TO 2\x7d)) \\(") =
        [⟨.term "title", "title", 0⟩, ⟨.colon, ":", 5⟩, ⟨.lparen, "(", 6⟩,
          ⟨.phrase "f(x)", "\"f(x)\"", 7⟩, ⟨.lbracket true, "[", 14⟩, ⟨.term "1", "1", 15⟩,
          ⟨.to, "TO", 17⟩, ⟨.term "2", "2", 20⟩, ⟨.rbracket false, "\x7d", 21⟩,
          ⟨.rparen, ")", 22⟩, ⟨.term "\\(", "\\(", 24⟩] ∧
      Nested (Token.opens .round) (Token.closes .round)
        (tokenize (removeUnmatched "title:(\"f(x)\" [1 TO 2\x7d)) \\(")) := by
  have htokens : tokenize (removeUnmatched "title:(\"f(x)\" [1 TO 2\x7d)) \\(") =
      [⟨.term "title", "title", 0⟩, ⟨.colon, ":", 5⟩, ⟨.lparen, "(", 6⟩,
        ⟨.phrase "f(x)", "\"f(x)\"", 7⟩, ⟨.lbracket true, "[", 14⟩, ⟨.term "1", "1", 15⟩,
        ⟨.to, "TO", 17⟩, ⟨.term "2", "2", 20⟩, ⟨.rbracket false, "\x7d", 21⟩,
        ⟨.rparen, ")", 22⟩, ⟨.term "\\(", "\\(", 24⟩] := by with_unfolding_all rfl
  refine ⟨htokens, nested_tokenize_removeUnmatched _ _ ?_⟩
  rw [htokens]
  have hphrase : Nested (isOpener .round) (isCloser .round) (exposure "\"f(x)\"".toList) :=
    (nested_iff_depthAfter isCloser_eq_false_of_isOpener).2 (by decide)
  simpa only [List.forall_mem_cons, Token.Intact, Lexeme.Intact, true_and] using
    ⟨hphrase, List.forall_mem_nil _⟩

/-- A closing bracket inside a phrase keeps the bracket before the phrase, which nothing closes. -/
theorem not_nested_tokenize_of_quoted_closer :
    tokenize (removeUnmatched "(\"a)\"") = [⟨.lparen, "(", 0⟩, ⟨.phrase "a)", "\"a)\"", 1⟩] ∧
      ¬Nested (Token.opens .round) (Token.closes .round)
        (tokenize (removeUnmatched "(\"a)\"")) := by
  have htokens : tokenize (removeUnmatched "(\"a)\"") =
      [⟨.lparen, "(", 0⟩, ⟨.phrase "a)", "\"a)\"", 1⟩] := by with_unfolding_all rfl
  refine ⟨htokens, fun h => ?_⟩
  have hclosed := h.closed
  rw [htokens] at hclosed
  exact absurd hclosed (by decide)

end SearchQuery
