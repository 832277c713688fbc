import SearchQuery.Expr.Parser
import SearchQuery.Proofs.Except
import SearchQuery.Proofs.Syntax.Grammar

/-!
# The reader decides the grammar

A token list is read as a tree exactly when the whole list derives the tree. So the greedy readers,
which look one token ahead and never go back, lose no derivation.

## The rest decides how far a reader goes

Soundness needs no condition: what a reader took is derived, whatever it left. Completeness does.
A reader goes on as long as it can, so it stops after a derivation only if the next token does not
go on with it, and which tokens do so depends on the rule. `ReadBefore` states for each rule what
the reader makes of a derivation before such a rest; that is strong enough for one induction over
all derivations, and at the end of the tokens the condition is void.

## One token of look-ahead

What a reader makes of some tokens depends on those it takes and on the token after them, and on
nothing that comes later. `Derives.readBefore` does not say so: the rest may be one that could go on
with a derivation of the same tokens elsewhere. After `(a)` the token `~` is left, although it is
taken after `a`. So what a reader leaves is compared with what it left, not with a grammar, and one
induction over the readers shows both what they take and that they take it again before any rest
that begins alike (`Reading.Takes`).

## Main definitions

* `Ends` — the next token has none of some lexemes
* `Reads` — a reader yields a tree and leaves a rest
* `Rule.read` — the reader of a rule
* `Reading.Takes` — the tokens that a reader took, what they derive and where they are read again
* `ReadBefore` — what each reader makes of a derivation before a rest

## Main results

* `takes_of_readUnary`, `takes_of_readPostfix`, `takes_of_readExpression` — what is read is derived,
  and the readers look one token ahead
* `Derives.readBefore` — what is derived is read
* `parseTokens_eq_ok_iff_derives` — reading decides the grammar, and each list has one tree
-/

namespace SearchQuery

variable {ts us : List Token} {e : Expr}

/-! ### What the readers make of their parts -/

theorem parenthesized_of_ne_group (he : e.kind ≠ .group) : parenthesized e = .group [e] := by
  cases e with
  | group => exact absurd rfl he
  | _ => rfl

theorem beside_iff {f g : Expr} : Beside e f g ↔ juxtapose e f = g := by
  constructor
  · intro h
    cases h with
    | group => rfl
    | other hf =>
      cases f with
      | group => exact absurd rfl hf
      | _ => rfl
  · rintro rfl
    cases f with
    | group es => exact .group es
    | _ => exact .other Kind.noConfusion

theorem distance_iff {degree : Option Decimal} {slop : UInt32} :
    Distance degree slop ↔ proximitySlop degree = slop := by
  have htoNat {n : Nat} (hn : n < UInt32.size) : n.toUInt32.toNat = n :=
    UInt32.toNat_ofNat_of_lt' hn
  constructor
  · intro h
    cases h with
    | absent => rfl
    | whole h => simp [proximitySlop, h, slop.toNat_lt_size]
    | @unfit degree h =>
      rw [proximitySlop, Option.bind_some]
      cases hwhole : degree.wholePart? with
      | none => rfl
      | some n => exact if_neg fun hn => h n.toUInt32 (by rw [hwhole, htoNat hn])
  · rintro rfl
    cases degree with
    | none => exact .absent
    | some degree =>
      rw [proximitySlop, Option.bind_some]
      cases hwhole : degree.wholePart? with
      | none => exact .unfit (by simp [hwhole])
      | some n =>
        by_cases hn : n < UInt32.size
        · simp only [if_pos hn]
          exact .whole (by rw [hwhole, htoNat hn])
        · simp only [if_neg hn]
          refine .unfit fun slop h => hn ?_
          rw [Option.some.inj (hwhole.symm.trans h)]
          exact slop.toNat_lt_size

/-! ### What goes on with a reading

A reader takes as much as it can, so a derivation is read only if the tokens after it do not go on
with it. For a unit that is a matter of its suffixes; for an expression boosts and further units
count as well. -/

/-- Whether the lexeme goes on with a unit without boosts. -/
def Lexeme.continuesUnary : Lexeme → Bool
  | .colon | .approx _ => true
  | _ => false

/-- Whether the lexeme goes on with an expression. -/
def Lexeme.continuesExpression : Lexeme → Bool
  | .colon | .approx _ | .boost _ => true
  | l => l.startsUnit

/-- The first token, if there is one, has a lexeme that does not satisfy `p`. -/
def Ends (p : Lexeme → Bool) (ts : List Token) : Prop := ∀ t ∈ ts.head?, p t.lexeme = false

@[simp] theorem ends_nil (p : Lexeme → Bool) : Ends p [] := by simp [Ends]

@[simp] theorem ends_cons {p : Lexeme → Bool} {t : Token} :
    Ends p (t :: ts) ↔ p t.lexeme = false := by simp [Ends]

theorem Ends.unary (h : Ends Lexeme.continuesExpression ts) : Ends Lexeme.continuesUnary ts := by
  cases ts with
  | nil => exact ends_nil _
  | cons t ts =>
    rw [ends_cons] at h ⊢
    cases ht : t.lexeme <;> simp_all [Lexeme.continuesExpression, Lexeme.continuesUnary]

theorem Ends.ne_approx (h : Ends Lexeme.continuesUnary ts) :
    ∀ u ∈ ts.head?, ∀ degree, u.lexeme ≠ .approx degree := by
  intro u hu degree hdegree
  have hends := h u hu
  rw [hdegree] at hends
  cases hends

theorem Ends.startsUnit_eq_false (h : Ends Lexeme.continuesExpression ts) :
    startsUnit ts = false := by
  cases ts with
  | nil => rfl
  | cons t ts =>
    rw [ends_cons] at h
    cases ht : t.lexeme <;>
      simp_all [Lexeme.continuesExpression, Lexeme.startsUnit, startsUnit]

theorem Ends.applyBoosts_eq (h : Ends Lexeme.continuesExpression ts) :
    applyBoosts e ts = (e, ts) := by
  cases ts with
  | nil => rfl
  | cons t ts =>
    rw [applyBoosts]
    split
    · rename_i ht
      simp [ht, Lexeme.continuesExpression] at h
    · rfl

theorem applyBoosts_of_startsUnit (h : startsUnit ts = true) : applyBoosts e ts = (e, ts) := by
  cases ts with
  | nil => rfl
  | cons t ts =>
    rw [applyBoosts]
    split
    · rename_i ht
      simp [startsUnit, ht, Lexeme.startsUnit] at h
    · rfl

theorem ends_unary_of_startsUnit (h : startsUnit ts = true) :
    Ends Lexeme.continuesUnary ts := by
  cases ts with
  | nil => exact ends_nil _
  | cons t ts =>
    rw [ends_cons]
    cases ht : t.lexeme <;> simp_all [Lexeme.continuesUnary, Lexeme.startsUnit, startsUnit]

/-! ### The readers by rule -/

/-- The tree is read and the rest is left. -/
def Reads (x : Except SyntaxError (Reading ts)) (e : Expr) (rest : List Token) : Prop :=
  ∃ r, x = .ok r ∧ r.tree = e ∧ r.rest = rest

theorem Reads.bind {vs rest rest' : List Token} {f : Expr}
    {x : Except SyntaxError (Reading ts)} {k : Reading ts → Except SyntaxError (Reading vs)}
    (h : Reads x e rest) (hk : ∀ shorter, Reads (k ⟨e, rest, shorter⟩) f rest') :
    Reads (x >>= k) f rest' := by
  obtain ⟨r, rfl, rfl, rfl⟩ := h
  exact hk r.shorter

theorem Reads.exists_shorter {rest : List Token} {x : Except SyntaxError (Reading ts)}
    (h : Reads x e rest) : ∃ shorter, x = .ok ⟨e, rest, shorter⟩ := by
  obtain ⟨r, rfl, rfl, rfl⟩ := h
  exact ⟨r.shorter, rfl⟩

theorem reads_bound {t : Token} (h : Bound t e) (rest : List Token) :
    Reads (readBound (t :: rest)) e rest := by
  cases h with
  | word ht | phrase ht =>
    rw [readBound]
    simp only [ht]
    exact ⟨_, rfl, rfl, rfl⟩

theorem reads_range {l sep r u : Token} {il ir : Bool} {left right : Expr} (hl : Bound l left)
    (hsep : sep.lexeme = .to) (hr : Bound r right) (hu : u.lexeme = .rbracket ir)
    (rest : List Token) :
    Reads (readRange il (l :: sep :: r :: u :: rest)) (.range left right il ir) rest := by
  obtain ⟨⟨_, _, _⟩, ha, rfl, rfl⟩ := reads_bound hl (sep :: r :: u :: rest)
  obtain ⟨⟨_, _, _⟩, hb, rfl, rfl⟩ := reads_bound hr (u :: rest)
  have hafter : readTo (sep :: r :: u :: rest) = .ok (r :: u :: rest) := if_pos hsep
  rw [readRange]
  simp only [ha]
  split
  · rename_i herr
    rw [hafter] at herr
    cases herr
  rename_i afterTo hafter'
  rw [hafter] at hafter'
  cases hafter'
  simp only [hb, hu]
  exact ⟨_, rfl, rfl, rfl⟩

section Unary

variable {t u : Token} {v : String} {rest : List Token}

theorem reads_plus (ht : t.lexeme = .plus) (h : Reads (readUnary ts) e rest) :
    Reads (readUnary (t :: ts)) (.plus e) rest := by
  rw [readUnary]
  simp only [ht]
  exact h.bind fun _ => ⟨_, rfl, rfl, rfl⟩

theorem reads_minus (ht : t.lexeme = .minus) (h : Reads (readUnary ts) e rest) :
    Reads (readUnary (t :: ts)) (.minus e) rest := by
  rw [readUnary]
  simp only [ht]
  exact h.bind fun _ => ⟨_, rfl, rfl, rfl⟩

theorem reads_parenthesized (ht : t.lexeme = .lparen) (hu : u.lexeme = .rparen)
    (h : Reads (readExpression (ts ++ u :: rest)) e (u :: rest)) :
    Reads (readUnary (t :: ts ++ [u] ++ rest)) (parenthesized e) rest := by
  rw [List.append_assoc, List.singleton_append, List.cons_append, readUnary]
  simp only [ht]
  refine h.bind fun shorter => ?_
  simp only [if_pos hu]
  exact ⟨_, rfl, rfl, rfl⟩

theorem reads_bracket {il : Bool} (ht : t.lexeme = .lbracket il)
    (h : Reads (readRange il ts) e rest) : Reads (readUnary (t :: ts)) e rest := by
  rw [readUnary]
  simp only [ht]
  exact h.bind fun _ => ⟨_, rfl, rfl, rfl⟩

theorem reads_field (ht : t.lexeme = .term v) (hu : u.lexeme = .colon)
    (h : Reads (readUnary ts) e rest) :
    Reads (readUnary (t :: u :: ts)) (.field (Text.lower v) e) rest := by
  rw [readUnary]
  simp only [ht, hu]
  exact h.bind fun _ => ⟨_, rfl, rfl, rfl⟩

theorem reads_fuzzy {degree : Option Decimal} (ht : t.lexeme = .term v)
    (hu : u.lexeme = .approx degree) (rest : List Token) :
    Reads (readUnary (t :: u :: rest)) (.fuzzy (.word v) (degree.getD .half).normalize) rest := by
  rw [readUnary]
  simp only [ht, hu]
  exact ⟨_, rfl, rfl, rfl⟩

theorem reads_proximity {degree : Option Decimal} (ht : t.lexeme = .phrase v)
    {slop : UInt32} (hu : u.lexeme = .approx degree) (hslop : Distance degree slop)
    (rest : List Token) :
    Reads (readUnary (t :: u :: rest)) (.proximity (.phrase v) slop) rest := by
  rw [readUnary, ← distance_iff.1 hslop]
  simp only [ht, hu]
  exact ⟨_, rfl, rfl, rfl⟩

theorem reads_word (ht : t.lexeme = .term v) (hrest : Ends Lexeme.continuesUnary rest) :
    Reads (readUnary (t :: rest)) (.word v) rest := by
  rw [readUnary]
  simp only [ht]
  cases rest with
  | nil => exact ⟨_, rfl, rfl, rfl⟩
  | cons u us =>
    dsimp only
    split
    · rename_i hu
      simp [hu, Lexeme.continuesUnary] at hrest
    · rename_i hu
      simp [hu, Lexeme.continuesUnary] at hrest
    · exact ⟨_, rfl, rfl, rfl⟩

/-- A field may not be a phrase, so a colon after a phrase is left. -/
theorem reads_phrase (ht : t.lexeme = .phrase v)
    (hrest : ∀ u ∈ rest.head?, ∀ degree, u.lexeme ≠ .approx degree) :
    Reads (readUnary (t :: rest)) (.phrase v) rest := by
  rw [readUnary]
  simp only [ht]
  cases rest with
  | nil => exact ⟨_, rfl, rfl, rfl⟩
  | cons u us =>
    dsimp only
    split
    · rename_i degree hu
      exact absurd hu (hrest u rfl degree)
    · exact ⟨_, rfl, rfl, rfl⟩

end Unary

/-! ### What is read is derived, and read again -/

/-- The reader of a rule. -/
def Rule.read : (rule : Rule) → (ts : List Token) → Except SyntaxError (Reading ts)
  | .expression, ts => readExpression ts
  | .boosted, ts => readPostfix ts
  | .unary, ts => readUnary ts

/-- The reading takes the tokens `used`. They derive its tree, and they are read as that before
every rest that begins like the one that is left. -/
structure Reading.Takes (rule : Rule) (r : Reading ts) (used : List Token) : Prop where
  /-- These are the tokens before the rest. -/
  split : ts = used ++ r.rest
  /-- They derive the tree. -/
  derives : Derives rule used r.tree
  /-- Of the rest only the first token counts. -/
  reads : ∀ rest, rest.head? = r.rest.head? → Reads (rule.read (used ++ rest)) r.tree rest

theorem bound_of_readBound {r : Reading ts} (h : readBound ts = .ok r) :
    ∃ t, ts = t :: r.rest ∧ Bound t r.tree := by
  cases ts with
  | nil => cases h
  | cons t ts =>
    rw [readBound] at h
    split at h
    · rename_i v ht
      cases h
      exact ⟨t, rfl, .word ht⟩
    · rename_i v ht
      cases h
      exact ⟨t, rfl, .phrase ht⟩
    · cases h

theorem to_of_readTo {rest : List Token} (h : readTo ts = .ok rest) :
    ∃ t, ts = t :: rest ∧ t.lexeme = .to := by
  cases ts with
  | nil => cases h
  | cons t ts =>
    rw [readTo] at h
    split at h
    · rename_i ht
      cases h
      exact ⟨t, rfl, ht⟩
    · cases h

theorem takes_of_readRange {il : Bool} {r : Reading ts} (h : readRange il ts = .ok r)
    {t : Token} (ht : t.lexeme = .lbracket il) :
    ∃ used, ts = used ++ r.rest ∧ Derives .unary (t :: used) r.tree ∧
      ∀ rest, Reads (readRange il (used ++ rest)) r.tree rest := by
  rw [readRange] at h
  split at h
  · cases h
  rename_i left hleft
  split at h
  · cases h
  rename_i afterTo hto
  split at h
  · cases h
  rename_i right hright
  split at h
  · cases h
  rename_i u rest hrest
  split at h
  · rename_i ir hu
    cases h
    obtain ⟨l, hl, hbl⟩ := bound_of_readBound hleft
    obtain ⟨sep, hsep, hlex⟩ := to_of_readTo hto
    obtain ⟨rt, hr, hbr⟩ := bound_of_readBound hright
    have hall : ts = l :: sep :: rt :: u :: rest := by rw [hl, hsep, hr, hrest]
    exact ⟨[l, sep, rt, u], hall, .range ht hbl hlex hbr hu, reads_range hbl hlex hbr hu⟩
  · cases h

theorem derives_parenthesized {t u : Token} (ht : t.lexeme = .lparen)
    (h : Derives .expression ts e) (hu : u.lexeme = .rparen) :
    Derives .unary (t :: ts ++ [u]) (parenthesized e) := by
  cases e with
  | group operands => exact h.groupInParens ht hu
  | _ => exact .otherInParens ht h hu (by simp [Expr.kind])

/-- The boosts that are applied are the tokens up to those left. -/
theorem exists_applyBoosts (h : Derives .boosted us e) (ts : List Token) :
    ∃ bs, ts = bs ++ (applyBoosts e ts).2 ∧ Derives .boosted (us ++ bs) (applyBoosts e ts).1 ∧
      ∀ rest, rest.head? = (applyBoosts e ts).2.head? →
        applyBoosts e (bs ++ rest) = ((applyBoosts e ts).1, rest) := by
  induction ts generalizing us e with
  | nil =>
    refine ⟨[], rfl, by simpa [applyBoosts] using h, fun rest hrest => ?_⟩
    rw [List.head?_eq_none_iff.1 hrest]
    rfl
  | cons t ts ih =>
    rw [applyBoosts]
    split
    · rename_i score ht
      obtain ⟨bs, hbs, hd, happly⟩ := ih (h.boost ht)
      refine ⟨t :: bs, congrArg _ hbs, by simpa [Expr.boosted] using hd, fun rest hrest => ?_⟩
      rw [List.cons_append, applyBoosts]
      simp only [ht]
      exact happly rest hrest
    · rename_i ht
      refine ⟨[], rfl, by simpa using h, fun rest hrest => ?_⟩
      obtain ⟨rest', rfl⟩ := List.head?_eq_some_iff.1 hrest
      rw [List.nil_append, applyBoosts]
      split
      · rename_i score hscore
        exact absurd hscore (ht score)
      · rfl

theorem startsUnit_congr (h : ts.head? = us.head?) : startsUnit ts = startsUnit us := by
  cases ts <;> cases us <;> simp_all [startsUnit]

theorem takes_of_phrase {t : Token} {v : String} (ht : t.lexeme = .phrase v)
    {r : Reading (t :: ts)} (h : readUnary (t :: ts) = .ok r) : ∃ used, r.Takes .unary used := by
  rw [readUnary] at h
  simp only [ht] at h
  cases ts with
  | nil =>
    cases h
    refine ⟨[t], rfl, .phrase ht, fun rest hrest => reads_phrase ht ?_⟩
    rw [List.head?_eq_none_iff.1 hrest]
    simp
  | cons u us =>
    dsimp only at h
    split at h
    · rename_i degree hu
      cases h
      have hslop : Distance degree (proximitySlop degree) := distance_iff.2 rfl
      exact ⟨[t, u], rfl, .proximity ht hu hslop, fun rest _ => reads_proximity ht hu hslop rest⟩
    · rename_i happrox
      cases h
      refine ⟨[t], rfl, .phrase ht, fun rest hrest => reads_phrase ht ?_⟩
      obtain ⟨rest', rfl⟩ := List.head?_eq_some_iff.1 hrest
      simpa using happrox

mutual

theorem takes_of_readUnary {ts : List Token} {r : Reading ts} (h : readUnary ts = .ok r) :
    ∃ used, r.Takes .unary used := by
  cases ts with
  | nil => rw [readUnary] at h; cases h
  | cons t ts =>
    have hread := h
    rw [readUnary] at h
    split at h
    case h_1 ht =>
      obtain ⟨inner, hinner, hr⟩ := bind_eq_ok_iff.1 h
      cases hr
      obtain ⟨used, hused, hd, hreads⟩ := takes_of_readUnary hinner
      exact ⟨t :: used, congrArg _ hused, .plus ht hd,
        fun rest hrest => reads_plus ht (hreads rest hrest)⟩
    case h_2 ht =>
      obtain ⟨inner, hinner, hr⟩ := bind_eq_ok_iff.1 h
      cases hr
      obtain ⟨used, hused, hd, hreads⟩ := takes_of_readUnary hinner
      exact ⟨t :: used, congrArg _ hused, .minus ht hd,
        fun rest hrest => reads_minus ht (hreads rest hrest)⟩
    case h_3 ht =>
      obtain ⟨inner, hinner, hr⟩ := bind_eq_ok_iff.1 h
      obtain ⟨used, hused, hd, hreads⟩ := takes_of_readExpression hinner
      split at hr
      · cases hr
      rename_i u rest hrest
      split at hr
      · rename_i hu
        cases hr
        refine ⟨t :: used ++ [u], by simp [hused, hrest], derives_parenthesized ht hd hu,
          fun rest' _ => ?_⟩
        exact reads_parenthesized ht hu (hreads (u :: rest') (by rw [hrest]; rfl))
      · cases hr
    case h_4 il ht =>
      obtain ⟨range, hrange, hr⟩ := bind_eq_ok_iff.1 h
      cases hr
      obtain ⟨used, hused, hd, hreads⟩ := takes_of_readRange hrange ht
      exact ⟨t :: used, congrArg _ hused, hd, fun rest _ => reads_bracket ht (hreads rest)⟩
    case h_5 v ht =>
      split at h
      · cases h
        refine ⟨[t], rfl, .word ht, fun rest hrest => reads_word ht ?_⟩
        rw [List.head?_eq_none_iff.1 hrest]
        exact ends_nil _
      rename_i u us
      split at h
      · rename_i hu
        obtain ⟨body, hbody, hr⟩ := bind_eq_ok_iff.1 h
        cases hr
        obtain ⟨used, hused, hd, hreads⟩ := takes_of_readUnary hbody
        exact ⟨t :: u :: used, congrArg (t :: u :: ·) hused, .field ht hu hd,
          fun rest hrest => reads_field ht hu (hreads rest hrest)⟩
      · rename_i degree hu
        cases h
        exact ⟨[t, u], rfl, .fuzzy ht hu, fun rest _ => reads_fuzzy ht hu rest⟩
      · rename_i hcolon happrox
        cases h
        refine ⟨[t], rfl, .word ht, fun rest hrest => reads_word ht ?_⟩
        obtain ⟨rest', rfl⟩ := List.head?_eq_some_iff.1 hrest
        refine ends_cons.2 ?_
        cases hu : u.lexeme <;> simp_all [Lexeme.continuesUnary]
    case h_6 v ht => exact takes_of_phrase ht hread
    case h_7 v ht | h_8 v ht | h_9 v ht =>
      cases h
      refine ⟨[t], rfl, ?_, fun rest _ => ?_⟩
      · first
        | exact .regex ht
        | exact .url ht
        | exact .doi ht
      · rw [List.singleton_append, Rule.read, readUnary]
        simp only [ht]
        exact ⟨_, rfl, rfl, rfl⟩
    case h_10 ht =>
      cases h
      refine ⟨[t], rfl, .reserved ht, fun rest _ => ?_⟩
      rw [List.singleton_append, Rule.read, readUnary]
      simp only [ht]
      exact ⟨_, rfl, rfl, rfl⟩
    all_goals cases h
termination_by (ts.length, 0)
decreasing_by
  all_goals
    subst_vars
    exact Prod.Lex.left _ _ (by simp only [List.length_cons]; omega)

theorem takes_of_readPostfix {ts : List Token} {r : Reading ts} (h : readPostfix ts = .ok r) :
    ∃ used, r.Takes .boosted used := by
  rw [readPostfix] at h
  obtain ⟨unit, hunit, hr⟩ := bind_eq_ok_iff.1 h
  cases hr
  obtain ⟨used, hused, hd, hreads⟩ := takes_of_readUnary hunit
  obtain ⟨bs, hbs, hdb, happly⟩ := exists_applyBoosts hd.bare unit.rest
  refine ⟨used ++ bs, ?_, hdb, fun rest hrest => ?_⟩
  · rw [List.append_assoc, ← hbs]
    exact hused
  · have hhead : (bs ++ rest).head? = unit.rest.head? := by
      rw [hbs, List.head?_append, List.head?_append, hrest]
    rw [List.append_assoc, Rule.read, readPostfix]
    refine (hreads _ hhead).bind fun _ => ?_
    simp only [happly rest hrest]
    exact ⟨_, rfl, rfl, rfl⟩
termination_by (ts.length, 1)
decreasing_by exact Prod.Lex.right _ (by decide)

theorem takes_of_readExpression {ts : List Token} {r : Reading ts}
    (h : readExpression ts = .ok r) : ∃ used, r.Takes .expression used := by
  rw [readExpression] at h
  obtain ⟨unit, hunit, hr⟩ := bind_eq_ok_iff.1 h
  obtain ⟨used, hused, hd, hreads⟩ := takes_of_readPostfix hunit
  split at hr
  · rename_i hstarts
    obtain ⟨more, hmore, hr⟩ := bind_eq_ok_iff.1 hr
    cases hr
    obtain ⟨usedMore, husedMore, hdMore, hreadsMore⟩ := takes_of_readExpression hmore
    refine ⟨used ++ usedMore, ?_, hd.beside hdMore (beside_iff.2 rfl), fun rest hrest => ?_⟩
    · rw [List.append_assoc, ← husedMore]
      exact hused
    · have hhead : (usedMore ++ rest).head? = unit.rest.head? := by
        rw [husedMore, List.head?_append, List.head?_append, hrest]
      rw [List.append_assoc, Rule.read, readExpression]
      refine (hreads _ hhead).bind fun _ => ?_
      rw [if_pos (by rwa [startsUnit_congr hhead])]
      exact (hreadsMore rest hrest).bind fun _ => ⟨_, rfl, rfl, rfl⟩
  · rename_i hstarts
    cases hr
    refine ⟨used, hused, hd.alone, fun rest hrest => ?_⟩
    rw [Rule.read, readExpression]
    refine (hreads rest hrest).bind fun _ => ?_
    rw [if_neg (by rwa [startsUnit_congr hrest])]
    exact ⟨_, rfl, rfl, rfl⟩
termination_by (ts.length, 2)
decreasing_by
  · exact Prod.Lex.right _ (by decide)
  · exact Prod.Lex.left _ _ unit.shorter

end

/-! ### What is derived is read -/

/-- The first token of a derivation is one that a unit begins with. -/
theorem Derives.startsUnit {rule : Rule} (h : Derives rule ts e) (rest : List Token) :
    startsUnit (ts ++ rest) = true := by
  induction h generalizing rest with
  | alone _ ih | bare _ ih => exact ih rest
  | beside _ _ _ ih _ => rw [List.append_assoc]; exact ih _
  | boost _ _ ih => rw [List.append_assoc]; exact ih _
  | plus ht | minus ht | groupInParens ht | otherInParens ht | range ht | field ht | fuzzy ht
  | proximity ht | word ht | phrase ht | regex ht | url ht | doi ht | reserved ht =>
    simp [SearchQuery.startsUnit, ht, Lexeme.startsUnit]

/-- What the reader of a rule makes of the tokens before some rest. The reader of units goes on
with the boosts in the rest. -/
def ReadBefore (rest : List Token) : Rule → List Token → Expr → Prop
  | .expression, used, e =>
    Ends Lexeme.continuesExpression rest → Reads (readExpression (used ++ rest)) e rest
  | .boosted, used, e =>
    Ends Lexeme.continuesUnary rest →
      Reads (readPostfix (used ++ rest)) (applyBoosts e rest).1 (applyBoosts e rest).2
  | .unary, used, e => Ends Lexeme.continuesUnary rest → Reads (readUnary (used ++ rest)) e rest

/-- **What is derived is read.** -/
theorem Derives.readBefore {rule : Rule} {used : List Token} (h : Derives rule used e)
    (rest : List Token) : ReadBefore rest rule used e := by
  induction h generalizing rest with
  | @alone ts e h ih =>
    intro hrest
    have hunit := ih rest hrest.unary
    rw [hrest.applyBoosts_eq] at hunit
    rw [readExpression]
    refine hunit.bind fun _ => ?_
    rw [if_neg (by simp [hrest.startsUnit_eq_false])]
    exact ⟨_, rfl, rfl, rfl⟩
  | @beside ts us e f g h hs hg ih ihs =>
    intro hrest
    -- a further unit begins after the first one, so no boost of the first one is left
    have hstarts := hs.startsUnit rest
    have hunit := ih (us ++ rest) (ends_unary_of_startsUnit hstarts)
    rw [applyBoosts_of_startsUnit hstarts] at hunit
    rw [List.append_assoc, readExpression]
    refine hunit.bind fun _ => ?_
    rw [if_pos hstarts]
    exact (ihs rest hrest).bind fun _ => ⟨_, rfl, beside_iff.1 hg, rfl⟩
  | bare h ih =>
    intro hrest
    rw [readPostfix]
    exact (ih rest hrest).bind fun _ => ⟨_, rfl, rfl, rfl⟩
  | @boost ts e t score h ht ih =>
    intro hrest
    have hunit := ih (t :: rest) (by simp [ht, Lexeme.continuesUnary])
    rw [applyBoosts] at hunit
    simp only [ht] at hunit
    rw [List.append_assoc]
    exact hunit
  | plus ht h ih => exact fun hrest => reads_plus ht (ih rest hrest)
  | minus ht h ih => exact fun hrest => reads_minus ht (ih rest hrest)
  | groupInParens ht h hu ih =>
    intro hrest
    refine reads_parenthesized ht hu (ih _ ?_)
    simp [hu, Lexeme.continuesExpression, Lexeme.startsUnit]
  | otherInParens ht h hu he ih =>
    intro hrest
    rw [← parenthesized_of_ne_group he]
    refine reads_parenthesized ht hu (ih _ ?_)
    simp [hu, Lexeme.continuesExpression, Lexeme.startsUnit]
  | range ht hl hto hr hu => exact fun _ => reads_bracket ht (reads_range hl hto hr hu rest)
  | field ht hu h ih => exact fun hrest => reads_field ht hu (ih rest hrest)
  | fuzzy ht hu => exact fun _ => reads_fuzzy ht hu rest
  | proximity ht hu hslop => exact fun _ => reads_proximity ht hu hslop rest
  | word ht => exact reads_word ht
  | phrase ht => exact fun hrest => reads_phrase ht hrest.ne_approx
  | regex ht | url ht | doi ht | reserved ht =>
    intro hrest
    rw [List.cons_append, readUnary]
    simp only [ht]
    exact ⟨_, rfl, rfl, rfl⟩

/-! ### Whole token lists -/

theorem parseTokens_eq_ok_none_iff : parseTokens ts = .ok none ↔ ts = [] := by
  refine ⟨fun h => ?_, fun h => by rw [h]; rfl⟩
  rw [parseTokens] at h
  split at h
  · rename_i hempty
    exact List.isEmpty_iff.1 hempty
  · split at h
    · cases h
    · split at h <;> cases h

theorem derives_of_parseTokens (h : parseTokens ts = .ok (some e)) :
    Derives .expression ts e := by
  rw [parseTokens] at h
  split at h
  · cases h
  split at h
  · cases h
  rename_i reading hreading
  split at h
  · rename_i hnil
    cases h
    obtain ⟨used, hused, hd, -⟩ := takes_of_readExpression hreading
    rw [hnil, List.append_nil] at hused
    exact hused ▸ hd
  · cases h

theorem parseTokens_of_derives (h : Derives .expression ts e) :
    parseTokens ts = .ok (some e) := by
  have hread := h.readBefore [] (ends_nil _)
  rw [List.append_nil] at hread
  obtain ⟨r, hr, rfl, hrest⟩ := hread
  rw [parseTokens, if_neg (by simpa using h.ne_nil), hr]
  simp only [hrest]

/-- **The reader decides the grammar.** A tree is read from a token list exactly when the whole
list derives it, no list derives two trees, and only the empty list is read as no tree. -/
theorem parseTokens_eq_ok_iff_derives (ts : List Token) :
    (∀ e, parseTokens ts = .ok (some e) ↔ Derives .expression ts e) ∧
      (∀ e f, Derives .expression ts e → Derives .expression ts f → e = f) ∧
      (parseTokens ts = .ok none ↔ ts = []) := by
  refine ⟨fun e => ⟨derives_of_parseTokens, parseTokens_of_derives⟩, fun e f he hf => ?_,
    parseTokens_eq_ok_none_iff⟩
  have h := (parseTokens_of_derives he).symm.trans (parseTokens_of_derives hf)
  cases h
  rfl

end SearchQuery
