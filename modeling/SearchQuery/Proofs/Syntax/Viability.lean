import SearchQuery.Diagnostic
import SearchQuery.Proofs.Syntax.Parsing

/-!
# Errors at the first token that cannot go on

A text that is no query is refused as soon as nothing that could follow makes it one. The tokens
before the one that the error is about begin some query, and with that token they begin none. If the
error is about the end, all tokens begin a query and something is missing.

## Two halves

That a query can be completed is shown along the grammar: whatever part of a rule a reader is in,
the rest of the rule is put after the tokens, a word for a unit, a parenthesis, the rest of a range.
That it cannot be completed beyond the error is shown along the readers: they look one token ahead
(`Reading.Takes`), so they fail at the same token whatever comes after it, and a list that is
derived is read (`parseTokens_of_derives`). `Explains` states both at once, for the reader of any
rule, and is carried from a part to the whole by `Explains.after`.

## Main definitions

* `Begins` — the tokens begin a list that a rule derives
* `Explains` — the error of a reader is at the first token that cannot go on

## Main results

* `explains_readUnary`, `explains_readPostfix`, `explains_readExpression` — the errors of readers
* `parseTokens_eq_unexpected`, `parseTokens_eq_endOfInput` — which error there is
* `begins_of_parse_error` — what the place of an error says about the tokens of a text
-/

namespace SearchQuery

variable {rule : Rule} {ts us : List Token} {e : Expr} {err : SyntaxError}

/-! ### What an error says -/

/-- The tokens begin a list that the rule derives. -/
def Begins (rule : Rule) (ts : List Token) : Prop := ∃ more e, Derives rule (ts ++ more) e

/-- The error is at a token with which no list goes on that begins like this one, while up to that
token some list does. At the end of the tokens there is such a list too. -/
def Explains (rule : Rule) (ts : List Token) : SyntaxError → Prop
  | .unexpected t => ∃ used rest, ts = used ++ t :: rest ∧ Begins rule used ∧
      ∀ rest, rule.read (used ++ t :: rest) = .error (.unexpected t)
  | .endOfInput => Begins rule ts

/-- The error of a part is the error of the whole if the tokens before the part are read alike. -/
theorem Explains.after {rule' : Rule} (h : Explains rule ts err) (before : List Token)
    (hbegins : ∀ us, Begins rule us → Begins rule' (before ++ us))
    (hread : ∀ us t, us.head? = ts.head? → rule.read us = .error (.unexpected t) →
      rule'.read (before ++ us) = .error (.unexpected t)) : Explains rule' (before ++ ts) err := by
  cases err with
  | endOfInput => exact hbegins ts h
  | unexpected t =>
    obtain ⟨used, rest, rfl, hused, hstuck⟩ := h
    refine ⟨before ++ used, rest, by rw [List.append_assoc], hbegins used hused, fun rest' => ?_⟩
    rw [List.append_assoc]
    exact hread _ t (by simp [List.head?_append]) (hstuck rest')

/-- A token with the lexeme. -/
def Token.ofLexeme (l : Lexeme) : Token := ⟨l, "", 0⟩

/-- The reader fails at the first token, whatever comes after it, or because there is none. -/
def FailsAt (ts : List Token) (err : SyntaxError) (fails : List Token → Prop) : Prop :=
  ts = [] ∧ err = .endOfInput ∨
    ∃ t rest, ts = t :: rest ∧ err = .unexpected t ∧ ∀ rest', fails (t :: rest')

theorem FailsAt.mono {fails fails' : List Token → Prop} (h : FailsAt ts err fails)
    (hmono : ∀ us, fails us → fails' us) : FailsAt ts err fails' :=
  h.imp_right fun ⟨t, rest, hts, herr, hfails⟩ =>
    ⟨t, rest, hts, herr, fun us => hmono _ (hfails us)⟩

theorem FailsAt.explains (used : List Token)
    (h : FailsAt ts err fun us => rule.read (used ++ us) = .error err)
    (hbegins : Begins rule used) : Explains rule (used ++ ts) err := by
  rcases h with ⟨rfl, rfl⟩ | ⟨t, rest, rfl, rfl, hfails⟩
  · rwa [List.append_nil]
  · exact ⟨used, rest, rfl, hbegins, hfails⟩

theorem failsAt_of_readBound (h : readBound ts = .error err) :
    FailsAt ts err fun us => readBound us = .error err := by
  cases ts with
  | nil =>
    cases h
    exact .inl ⟨rfl, rfl⟩
  | cons t ts =>
    rw [readBound] at h
    split at h
    · cases h
    · cases h
    · cases h
      refine .inr ⟨t, ts, rfl, rfl, fun rest => ?_⟩
      show readBound (t :: rest) = _
      rw [readBound]
      split <;> simp_all

theorem failsAt_of_readTo (h : readTo ts = .error err) :
    FailsAt ts err fun us => readTo us = .error err := by
  cases ts with
  | nil =>
    cases h
    exact .inl ⟨rfl, rfl⟩
  | cons t ts =>
    rw [readTo] at h
    split at h
    · cases h
    · rename_i ht
      cases h
      exact .inr ⟨t, ts, rfl, rfl, fun rest => if_neg ht⟩

section Range

variable {l sep r : Token} {il : Bool} {left right : Expr}

theorem readRange_of_readTo (hl : Bound l left) (h : readTo ts = .error err) :
    readRange il (l :: ts) = .error err := by
  obtain ⟨_, hlower⟩ := (reads_bound hl ts).exists_shorter
  rw [readRange, hlower]
  dsimp only
  split
  · rename_i hto
    cases hto.symm.trans h
    rfl
  · rename_i hto
    cases hto.symm.trans h

theorem readRange_of_readBound (hl : Bound l left) (hsep : sep.lexeme = .to)
    (h : readBound ts = .error err) : readRange il (l :: sep :: ts) = .error err := by
  obtain ⟨_, hlower⟩ := (reads_bound hl (sep :: ts)).exists_shorter
  have hafter : readTo (sep :: ts) = .ok ts := if_pos hsep
  rw [readRange, hlower]
  dsimp only
  split
  · rename_i hto
    cases hafter.symm.trans hto
  · rename_i hto
    cases hafter.symm.trans hto
    rw [h]

theorem readRange_of_end (hl : Bound l left) (hsep : sep.lexeme = .to) (hr : Bound r right)
    {u : Token} (hu : ∀ ir, u.lexeme ≠ .rbracket ir) (ts : List Token) :
    readRange il (l :: sep :: r :: u :: ts) = .error (.unexpected u) := by
  obtain ⟨_, hlower⟩ := (reads_bound hl (sep :: r :: u :: ts)).exists_shorter
  obtain ⟨_, hupper⟩ := (reads_bound hr (u :: ts)).exists_shorter
  have hafter : readTo (sep :: r :: u :: ts) = .ok (r :: u :: ts) := if_pos hsep
  rw [readRange, hlower]
  dsimp only
  split
  · rename_i hto
    cases hafter.symm.trans hto
  · rename_i hto
    cases hafter.symm.trans hto
    simp only [hupper]

/-- A range fails at one of its four tokens, and those before it begin a range. -/
theorem explains_readRange {t : Token} (ht : t.lexeme = .lbracket il)
    (h : readRange il ts = .error err) : Explains .unary (t :: ts) err := by
  have hunary : ∀ {us err}, readRange il us = .error err →
      Rule.read .unary (t :: us) = .error err := fun hus => by
    rw [Rule.read, readUnary]
    simp only [ht]
    exact bind_error hus _
  have hword : Bound (.ofLexeme (.term "a")) (.word "a") := .word rfl
  have hto : (Token.ofLexeme .to).lexeme = .to := rfl
  have hend : (Token.ofLexeme (.rbracket true)).lexeme = .rbracket true := rfl
  rw [readRange] at h
  split at h
  · rename_i hbound
    cases h
    refine FailsAt.explains [t] ((failsAt_of_readBound hbound).mono fun us hus => ?_)
      ⟨_, _, .range ht hword hto hword hend⟩
    have hrange : readRange il us = .error err := by rw [readRange, hus]
    exact hunary hrange
  rename_i lower hlower
  obtain ⟨l, hts, hl⟩ := bound_of_readBound hlower
  rw [hts]
  split at h
  · rename_i hsep
    cases h
    exact FailsAt.explains [t, l]
      ((failsAt_of_readTo hsep).mono fun us hus => hunary (readRange_of_readTo hl hus))
      ⟨_, _, .range ht hl hto hword hend⟩
  rename_i after hafter
  obtain ⟨sep, hrest, hsep⟩ := to_of_readTo hafter
  rw [hrest]
  split at h
  · rename_i hbound
    cases h
    exact FailsAt.explains [t, l, sep]
      ((failsAt_of_readBound hbound).mono fun us hus => hunary (readRange_of_readBound hl hsep hus))
      ⟨_, _, .range ht hl hsep hword hend⟩
  rename_i upper hupper
  obtain ⟨r, hrest, hr⟩ := bound_of_readBound hupper
  have hbegins : Begins .unary [t, l, sep, r] := ⟨_, _, .range ht hl hsep hr hend⟩
  rw [hrest]
  split at h
  · rename_i hnil
    cases h
    rwa [hnil]
  rename_i u rest hcons
  split at h
  · cases h
  · rename_i hu
    cases h
    exact ⟨[t, l, sep, r], rest, by rw [hcons]; rfl, hbegins, fun rest' =>
      hunary (readRange_of_end hl hsep hr (fun ir hir => hu ir hir) rest')⟩

end Range

mutual

theorem explains_readUnary {ts : List Token} (h : readUnary ts = .error err) :
    Explains .unary ts err := by
  cases ts with
  | nil =>
    rw [readUnary] at h
    cases h
    exact ⟨[.ofLexeme (.term "a")], .word "a", .word rfl⟩
  | cons t ts =>
    rw [readUnary] at h
    split at h
    case h_1 ht | h_2 ht =>
      have hinner := eq_error_of_bind_pure h
      have hsigned : ∀ us, Begins .unary us → Begins .unary ([t] ++ us) := by
        rintro us ⟨more, e, hd⟩
        first
        | exact ⟨more, _, .plus ht hd⟩
        | exact ⟨more, _, .minus ht hd⟩
      refine (explains_readUnary hinner).after [t] hsigned fun us u _ hus => ?_
      rw [List.singleton_append, Rule.read, readUnary]
      simp only [ht]
      exact bind_error hus _
    case h_3 ht =>
      have hclosed : ∀ us, Begins .expression us → Begins .unary ([t] ++ us) := by
        rintro us ⟨more, e, hd⟩
        have hparens := derives_parenthesized (u := .ofLexeme .rparen) ht hd rfl
        exact ⟨more ++ [.ofLexeme .rparen], _, by simpa using hparens⟩
      rcases bind_eq_error_iff.1 h with hinner | ⟨inner, hinner, hr⟩
      · refine (explains_readExpression hinner).after [t] hclosed fun us u _ hus => ?_
        rw [List.singleton_append, Rule.read, readUnary]
        simp only [ht]
        exact bind_error hus _
      · obtain ⟨used, hused, hd, hreads⟩ := takes_of_readExpression hinner
        have hbegins : Begins .unary (t :: used) := hclosed used ⟨[], _, by simpa using hd⟩
        split at hr
        · rename_i hnil
          cases hr
          rw [hnil, List.append_nil] at hused
          rwa [hused]
        rename_i u rest hcons
        split at hr
        · cases hr
        rename_i hu
        cases hr
        refine ⟨t :: used, rest, by rw [hused, hcons]; rfl, hbegins, fun rest' => ?_⟩
        obtain ⟨_, hread⟩ := (hreads (u :: rest') (by rw [hcons]; rfl)).exists_shorter
        rw [List.cons_append, Rule.read, readUnary]
        simp only [ht]
        refine bind_eq_error_iff.2 (.inr ⟨_, hread, ?_⟩)
        exact if_neg hu
    case h_4 il ht =>
      have hrange := eq_error_of_bind_pure h
      exact explains_readRange ht hrange
    case h_5 v ht =>
      split at h
      · cases h
      rename_i u us
      split at h
      · rename_i hu
        have hbody := eq_error_of_bind_pure h
        refine (explains_readUnary hbody).after [t, u]
          (fun us ⟨more, e, hd⟩ => ⟨more, _, .field ht hu hd⟩) fun us w _ hus => ?_
        rw [List.cons_append, List.singleton_append, Rule.read, readUnary]
        simp only [ht, hu]
        exact bind_error hus _
      · cases h
      · cases h
    case h_6 v ht =>
      split at h
      · cases h
      · split at h <;> cases h
    case h_7 | h_8 | h_9 | h_10 => cases h
    all_goals
      rename_i ht
      cases h
      refine ⟨[], ts, rfl, ⟨[.ofLexeme (.term "a")], .word "a", .word rfl⟩, fun rest => ?_⟩
      rw [List.nil_append, Rule.read, readUnary]
      simp only [ht]
      rfl
termination_by (ts.length, 0)
decreasing_by
  all_goals
    subst_vars
    exact Prod.Lex.left _ _ (by simp only [List.length_cons]; omega)

theorem explains_readPostfix {ts : List Token} (h : readPostfix ts = .error err) :
    Explains .boosted ts err := by
  rw [readPostfix] at h
  have hunit := eq_error_of_bind_pure h
  refine (explains_readUnary hunit).after []
    (fun us ⟨more, e, hd⟩ => ⟨more, e, hd.bare⟩) fun us t _ hus => ?_
  rw [List.nil_append, Rule.read, readPostfix]
  exact bind_error hus _
termination_by (ts.length, 1)
decreasing_by exact Prod.Lex.right _ (by decide)

theorem explains_readExpression {ts : List Token} (h : readExpression ts = .error err) :
    Explains .expression ts err := by
  rw [readExpression] at h
  rcases bind_eq_error_iff.1 h with hunit | ⟨unit, hunit, hr⟩
  · refine (explains_readPostfix hunit).after []
      (fun us ⟨more, e, hd⟩ => ⟨more, e, hd.alone⟩) fun us t _ hus => ?_
    rw [List.nil_append, Rule.read, readExpression]
    exact bind_error hus _
  · obtain ⟨used, hused, hd, hreads⟩ := takes_of_readPostfix hunit
    split at hr
    · rename_i hstarts
      have hmore := eq_error_of_bind_pure hr
      rw [hused]
      refine (explains_readExpression hmore).after used
        (fun us ⟨more, e, hds⟩ => ⟨more, juxtapose unit.tree e, ?_⟩) fun us t hhead hus => ?_
      · rw [List.append_assoc]
        exact hd.beside hds (beside_iff.2 rfl)
      · obtain ⟨_, hread⟩ := (hreads us hhead).exists_shorter
        rw [Rule.read, readExpression]
        refine bind_eq_error_iff.2 (.inr ⟨_, hread, ?_⟩)
        dsimp only
        rw [if_pos (by rwa [startsUnit_congr hhead])]
        exact bind_error hus _
    · cases hr
termination_by (ts.length, 2)
decreasing_by
  · exact Prod.Lex.right _ (by decide)
  · exact Prod.Lex.left _ _ unit.shorter

end

/-! ### Whole token lists -/

theorem Begins.of_isPrefix (h : Begins rule us) (hts : ts <+: us) : Begins rule ts := by
  obtain ⟨more, e, hd⟩ := h
  obtain ⟨rest, rfl⟩ := hts
  exact ⟨rest ++ more, e, List.append_assoc ts rest more ▸ hd⟩

theorem not_derives_of_error (h : parseTokens ts = .error err) :
    ¬ ∃ e, Derives .expression ts e := by
  rintro ⟨e, hd⟩
  cases (parseTokens_of_derives hd).symm.trans h

theorem begins_of_endOfInput (h : parseTokens ts = .error .endOfInput) :
    Begins .expression ts := by
  rw [parseTokens] at h
  split at h
  · cases h
  split at h
  · rename_i err herr
    cases h
    exact explains_readExpression herr
  · split at h <;> cases h

/-- An error about a token is the same whatever comes after the token. -/
theorem exists_stuck_of_unexpected {t : Token} (h : parseTokens ts = .error (.unexpected t)) :
    ∃ before after, ts = before ++ t :: after ∧ Begins .expression before ∧
      ∀ rest, parseTokens (before ++ t :: rest) = .error (.unexpected t) := by
  rw [parseTokens] at h
  split at h
  · cases h
  split at h
  · rename_i err herr
    cases h
    obtain ⟨before, after, hts, hbegins, hstuck⟩ := explains_readExpression herr
    refine ⟨before, after, hts, hbegins, fun rest => ?_⟩
    rw [parseTokens, if_neg (by simp), show readExpression _ = _ from hstuck rest]
  · -- the expression is complete, and a token is left
    rename_i reading hreading
    split at h
    · cases h
    rename_i u after hcons
    cases h
    obtain ⟨used, hused, hd, hreads⟩ := takes_of_readExpression hreading
    refine ⟨used, after, by rw [hused, hcons], ⟨[], _, by simpa using hd⟩, fun rest => ?_⟩
    obtain ⟨_, hread⟩ := (hreads (t :: rest) (by rw [hcons]; rfl)).exists_shorter
    rw [parseTokens, if_neg (by simp), show readExpression _ = _ from hread]

/-- What an error about a token says. -/
theorem begins_of_unexpected {t : Token} (h : parseTokens ts = .error (.unexpected t)) :
    ∃ before after, ts = before ++ t :: after ∧ Begins .expression before ∧
      ¬ Begins .expression (before ++ [t]) := by
  obtain ⟨before, after, hts, hbegins, hstuck⟩ := exists_stuck_of_unexpected h
  refine ⟨before, after, hts, hbegins, ?_⟩
  rintro ⟨more, e, hd⟩
  rw [List.append_assoc, List.singleton_append] at hd
  exact not_derives_of_error (hstuck more) ⟨e, hd⟩

/-- **Errors are at the first token that cannot go on.** An error with a place is at a token with
which no query begins, while some query begins with the tokens before it. Where an error has no
place, some query begins with all of the tokens, which are none themselves. -/
theorem begins_of_parse_error {s : String} (h : parse s = .error err) :
    (∀ p, err.position? = some p → ∃ before t after, tokenize s = before ++ t :: after ∧
      t.position = p ∧ Begins .expression before ∧ ¬ Begins .expression (before ++ [t])) ∧
    (err.position? = none →
      Begins .expression (tokenize s) ∧ ¬ ∃ e, Derives .expression (tokenize s) e) := by
  rw [parse] at h
  cases err with
  | unexpected t =>
    obtain ⟨before, after, hts, hbegins, hstuck⟩ := begins_of_unexpected h
    exact ⟨fun p hp => ⟨before, t, after, hts, Option.some.inj hp, hbegins, hstuck⟩,
      fun hp => absurd hp (by simp [SyntaxError.position?])⟩
  | endOfInput =>
    exact ⟨fun p hp => absurd hp (by simp [SyntaxError.position?]),
      fun _ => ⟨begins_of_endOfInput h, not_derives_of_error h⟩⟩

theorem begins_of_parse_error_unclosed :
    (parse "a (b ]" = .error (.unexpected ⟨.rbracket true, "]", 5⟩) ∧
      ∃ before t after, tokenize "a (b ]" = before ++ t :: after ∧ t.position = 5 ∧
        Begins .expression before ∧ ¬ Begins .expression (before ++ [t])) ∧
    (parse "a (b" = .error .endOfInput ∧ Begins .expression (tokenize "a (b") ∧
      ¬ ∃ e, Derives .expression (tokenize "a (b") e) := by
  have hbracket : parse "a (b ]" = .error (.unexpected ⟨.rbracket true, "]", 5⟩) := by
    with_unfolding_all rfl
  have hend : parse "a (b" = .error .endOfInput := by with_unfolding_all rfl
  exact ⟨⟨hbracket, (begins_of_parse_error hbracket).1 5 rfl⟩,
    hend, (begins_of_parse_error hend).2 rfl⟩

/-! ### Which error there is -/

/-- Two members of a list are at the same place of it, or one stands before the other. -/
theorem eq_or_prefix_of_append_eq {xs ys xs' ys' : List Token} {t u : Token}
    (h : xs ++ t :: xs' = ys ++ u :: ys') :
    xs = ys ∧ t = u ∨ xs ++ [t] <+: ys ∨ ys ++ [u] <+: xs := by
  rcases List.append_eq_append_iff.1 h with ⟨as, rfl, has⟩ | ⟨as, rfl, has⟩
  · cases as with
    | nil =>
      cases has
      exact .inl ⟨(List.append_nil xs).symm, rfl⟩
    | cons v as =>
      cases has
      exact .inr (.inl ⟨as, (List.append_cons ..).symm⟩)
  · cases as with
    | nil =>
      cases has
      exact .inl ⟨List.append_nil ys, rfl⟩
    | cons v as =>
      cases has
      exact .inr (.inr ⟨as, (List.append_cons ..).symm⟩)

/-- The place at which an error is found is the only one of its kind. -/
theorem parseTokens_eq_unexpected {t : Token} (hbegins : Begins .expression ts)
    (hstuck : ¬ Begins .expression (ts ++ [t])) (after : List Token) :
    parseTokens (ts ++ t :: after) = .error (.unexpected t) := by
  have hafter : ts ++ [t] <+: ts ++ t :: after := ⟨after, (List.append_cons ..).symm⟩
  cases h : parseTokens (ts ++ t :: after) with
  | ok e? =>
    cases e? with
    | none => exact absurd (parseTokens_eq_ok_none_iff.1 h) (by simp)
    | some e =>
      have hall : Begins .expression (ts ++ t :: after) :=
        ⟨[], e, by simpa using derives_of_parseTokens h⟩
      exact absurd (hall.of_isPrefix hafter) hstuck
  | error err =>
    cases err with
    | endOfInput => exact absurd ((begins_of_endOfInput h).of_isPrefix hafter) hstuck
    | unexpected u =>
      obtain ⟨before, rest, heq, hbefore, hu⟩ := begins_of_unexpected h
      rcases eq_or_prefix_of_append_eq heq with ⟨-, rfl⟩ | hearlier | hlater
      · rfl
      · exact absurd (hbefore.of_isPrefix hearlier) hstuck
      · exact absurd (hbegins.of_isPrefix hlater) hu

theorem parseTokens_eq_endOfInput (hne : ts ≠ []) (hbegins : Begins .expression ts)
    (h : ¬ ∃ e, Derives .expression ts e) : parseTokens ts = .error .endOfInput := by
  cases hparse : parseTokens ts with
  | ok e? =>
    cases e? with
    | none => exact absurd (parseTokens_eq_ok_none_iff.1 hparse) hne
    | some e => exact absurd ⟨e, derives_of_parseTokens hparse⟩ h
  | error err =>
    cases err with
    | endOfInput => rfl
    | unexpected u =>
      obtain ⟨before, rest, rfl, -, hu⟩ := begins_of_unexpected hparse
      exact absurd (hbegins.of_isPrefix ⟨rest, (List.append_cons ..).symm⟩) hu

end SearchQuery
