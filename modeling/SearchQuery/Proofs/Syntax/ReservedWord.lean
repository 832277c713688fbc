import SearchQuery.Proofs.Syntax.Viability
import SearchQuery.Proofs.Token.Lexemes

/-!
# The reserved word outside ranges

Between the bounds of a range `TO` separates them. Elsewhere it is read as the word that was typed,
so the parser might as well have been given that word. It might, with one exception: a word can be
followed by a colon, as the name of a field, and by a tilde, as a term with a degree of similarity.
The reserved word can not, and the colon or tilde after it is an error.

## One unit for another

Every token of a derivation that can begin a unit begins one, and in the place of that unit any
other may stand (`Derives.beginsUnit`). The reserved word is a unit by itself, so it is exchanged
for the word. Conversely, the word is a unit by itself unless it goes on, and is exchanged for the
reserved word. The bounds of a range are no units, which is why no range may stand before the token.

Errors are compared without running the parser twice. Which error there is follows from what begins
some query (`parseTokens_eq_unexpected`, `parseTokens_eq_endOfInput`), and exchanging the words
changes nothing about that.

## Main definitions

* `BeginsUnit` — a token of a derivation begins a unit, and others may stand in its place
* `Token.freed` — the reserved word as the word that was typed
* `SameOutcome` — the same tree, or an error at the same place
* `AppliesReserved` — a colon or tilde follows a reserved word that the parser gets to

## Main results

* `Derives.beginsUnit` — a token that can begin a unit begins one
* `derives_map_freed_iff` — reserved words that stand alone are read like words
* `sameOutcome_freed_iff` — when the outcome is the same for reserved words and words
-/

namespace SearchQuery

variable {rule : Rule} {xs ys ts us : List Token} {t u : Token} {e : Expr} {err : SyntaxError}

/-! ### Units in a derivation -/

/-- Whether the lexeme is a bracket of a range. -/
def Lexeme.isBracket : Lexeme → Bool
  | .lbracket _ | .rbracket _ => true
  | _ => false

/-- The tokens have no brackets of ranges. -/
def Rangeless (ts : List Token) : Prop := ∀ t ∈ ts, t.lexeme.isBracket = false

theorem rangeless_nil : Rangeless [] := List.forall_mem_nil _

theorem rangeless_cons :
    Rangeless (t :: ts) ↔ t.lexeme.isBracket = false ∧ Rangeless ts := List.forall_mem_cons

theorem rangeless_append : Rangeless (ts ++ us) ↔ Rangeless ts ∧ Rangeless us :=
  List.forall_mem_append

/-- In the derivation of `xs ++ t :: ys` the token begins a unit, which ends where no unit goes on,
and in whose place any other unit may stand. -/
def BeginsUnit (rule : Rule) (xs : List Token) (t : Token) (ys : List Token) (e : Expr) : Prop :=
  ∃ (used rest : List Token) (f : Expr) (k : Expr → Expr), ys = used ++ rest ∧
    Derives .unary (t :: used) f ∧ e = k f ∧ Ends Lexeme.continuesUnary rest ∧
    ∀ us g, Derives .unary us g → Derives rule (xs ++ us ++ rest) (k g)

theorem Ends.append {p : Lexeme → Bool} (hts : Ends p ts) (hus : Ends p us) :
    Ends p (ts ++ us) := by
  cases ts with
  | nil => exact hus
  | cons t ts => exact hts

section Wrap

variable {rule' : Rule} {before after : List Token} {k : Expr → Expr}

/-- The unit stays one in a larger derivation. -/
theorem BeginsUnit.wrap (h : BeginsUnit rule xs t ys e) (hafter : Ends Lexeme.continuesUnary after)
    (hk : ∀ ts f, Derives rule ts f → Derives rule' (before ++ ts ++ after) (k f)) :
    BeginsUnit rule' (before ++ xs) t (ys ++ after) (k e) := by
  obtain ⟨used, rest, f, k', rfl, hf, rfl, hends, hany⟩ := h
  refine ⟨used, rest ++ after, f, fun g => k (k' g), List.append_assoc .., hf, rfl,
    hends.append hafter, fun us g hg => ?_⟩
  simpa using hk _ _ (hany us g hg)

theorem BeginsUnit.append_left (h : BeginsUnit rule xs t ys e) (before : List Token)
    (hk : ∀ ts f, Derives rule ts f → Derives rule' (before ++ ts) (k f)) :
    BeginsUnit rule' (before ++ xs) t ys (k e) := by
  have hwrap : ∀ ts f, Derives rule ts f → Derives rule' (before ++ ts ++ []) (k f) :=
    fun ts f hf => by simpa using hk ts f hf
  simpa using h.wrap (ends_nil _) hwrap

theorem BeginsUnit.append_right (h : BeginsUnit rule xs t ys e)
    (hafter : Ends Lexeme.continuesUnary after)
    (hk : ∀ ts f, Derives rule ts f → Derives rule' (ts ++ after) (k f)) :
    BeginsUnit rule' xs t (ys ++ after) (k e) := by
  have hwrap : ∀ ts f, Derives rule ts f → Derives rule' ([] ++ ts ++ after) (k f) := hk
  exact h.wrap hafter hwrap

end Wrap

/-- A unit begins with its first token. -/
theorem beginsUnit_self (h : Derives .unary (t :: ys) e) : BeginsUnit .unary [] t ys e :=
  ⟨ys, [], e, id, (List.append_nil ys).symm, h, rfl, ends_nil _, fun us g hg => by simpa using hg⟩

theorem eq_append_singleton_of_ne (h : xs ++ t :: ys = ts ++ [u]) (hne : t ≠ u) :
    ∃ ys', ys = ys' ++ [u] ∧ ts = xs ++ t :: ys' := by
  rcases List.eq_nil_or_concat ys with rfl | ⟨ys', v, rfl⟩
  · exact absurd (List.cons.inj (List.append_inj' h rfl).2).1 hne
  · rw [List.concat_eq_append, ← List.cons_append, ← List.append_assoc] at h
    obtain ⟨hts, hv⟩ := List.append_inj' h rfl
    cases hv
    exact ⟨ys', List.concat_eq_append .., hts.symm⟩

theorem ne_of_startsUnit (ht : t.lexeme.startsUnit = true) (hu : u.lexeme.startsUnit = false) :
    t ≠ u := by
  rintro rfl
  rw [ht] at hu
  cases hu

/-- In a unit the token is the first one, or it stands somewhere after the first one. -/
theorem beginsUnit_of_tail {b : Token} (h : Derives .unary (b :: ts) e)
    (hts : xs ++ t :: ys = b :: ts)
    (htail : ∀ rest, xs = b :: rest → rest ++ t :: ys = ts → BeginsUnit .unary (b :: rest) t ys e) :
    BeginsUnit .unary xs t ys e := by
  rcases List.append_eq_cons_iff.1 hts with ⟨rfl, heq⟩ | ⟨rest, rfl, hrest⟩
  · cases heq
    exact beginsUnit_self h
  · exact htail rest rfl hrest.symm

/-- A unit of one token is begun by that token. -/
theorem beginsUnit_singleton {b : Token} (h : Derives .unary [b] e) (hts : xs ++ t :: ys = [b]) :
    BeginsUnit .unary xs t ys e :=
  beginsUnit_of_tail h hts fun _ _ hnil => by simp at hnil

/-- A unit of two tokens is begun by the first one, if the second is another one. -/
theorem beginsUnit_pair {b : Token} (h : Derives .unary [b, u] e) (hts : xs ++ t :: ys = [b, u])
    (hne : t ≠ u) : BeginsUnit .unary xs t ys e := by
  refine beginsUnit_of_tail h hts fun rest _ hrest => ?_
  rcases List.append_eq_cons_iff.1 hrest with ⟨-, heq⟩ | ⟨rest, -, hnil⟩
  · exact absurd (List.cons.inj heq).1 hne
  · simp at hnil

/-- What begins a unit between parentheses does so with them around it. -/
theorem beginsUnit_parenthesized {b : Token} (hb : b.lexeme = .lparen)
    (h : Derives .expression ts e) (hu : u.lexeme = .rparen) (ht : t.lexeme.startsUnit = true)
    (ih : ∀ xs' ys', xs' ++ t :: ys' = ts → xs = b :: xs' → BeginsUnit .expression xs' t ys' e)
    (hts : xs ++ t :: ys = b :: ts ++ [u]) : BeginsUnit .unary xs t ys (parenthesized e) := by
  refine beginsUnit_of_tail (derives_parenthesized hb h hu) hts fun rest hxs hrest => ?_
  have hne : t ≠ u := ne_of_startsUnit ht (by simp [hu, Lexeme.startsUnit])
  obtain ⟨ys', rfl, rfl⟩ := eq_append_singleton_of_ne hrest hne
  have hends : Ends Lexeme.continuesUnary [u] := by simp [hu, Lexeme.continuesUnary]
  have hwrap : ∀ us f, Derives .expression us f →
      Derives .unary ([b] ++ us ++ [u]) (parenthesized f) :=
    fun _ _ hf => derives_parenthesized hb hf hu
  exact (ih rest ys' rfl hxs).wrap hends hwrap

/-- **A token that can begin a unit begins one,** unless a range stands before it. -/
theorem Derives.beginsUnit (h : Derives rule (xs ++ t :: ys) e)
    (hxs : Rangeless xs) (ht : t.lexeme.startsUnit = true) :
    BeginsUnit rule xs t ys e := by
  generalize hts : xs ++ t :: ys = ts at h
  induction h generalizing xs ys with
  | alone h ih => exact (ih hxs hts).append_left [] fun _ _ => .alone
  | bare h ih => exact (ih hxs hts).append_left [] fun _ _ => .bare
  | @beside ts us e f g h hs hg ih ihs =>
    obtain rfl := beside_iff.1 hg
    rcases List.append_eq_append_iff.1 hts with ⟨as, rfl, has⟩ | ⟨as, rfl, rfl⟩
    · cases as with
      | nil =>
        subst has
        rw [List.append_nil] at h
        simpa using (ihs rangeless_nil rfl).append_left _ fun _ _ hf =>
          h.beside hf (beside_iff.2 rfl)
      | cons v as =>
        cases has
        have hends : Ends Lexeme.continuesUnary us :=
          ends_unary_of_startsUnit (by simpa using hs.startsUnit [])
        exact (ih hxs rfl).append_right (k := (juxtapose · f)) hends fun _ _ hf =>
          hf.beside hs (beside_iff.2 rfl)
    · exact (ihs (rangeless_append.1 hxs).2 rfl).append_left _ fun _ _ hf =>
        h.beside hf (beside_iff.2 rfl)
  | @boost ts e b score h hb ih =>
    have hne : t ≠ b := ne_of_startsUnit ht (by simp [hb, Lexeme.startsUnit])
    obtain ⟨ys, rfl, rfl⟩ := eq_append_singleton_of_ne hts hne
    have hends : Ends Lexeme.continuesUnary [b] := by simp [hb, Lexeme.continuesUnary]
    exact (ih hxs rfl).append_right (k := (.boost · (score.getD .one).normalize)) hends
      fun _ _ hf => hf.boost hb
  | plus hb h ih =>
    refine beginsUnit_of_tail (.plus hb h) hts fun rest hrest heq => ?_
    subst hrest
    exact (ih (rangeless_cons.1 hxs).2 heq).append_left [_] fun _ _ => .plus hb
  | minus hb h ih =>
    refine beginsUnit_of_tail (.minus hb h) hts fun rest hrest heq => ?_
    subst hrest
    exact (ih (rangeless_cons.1 hxs).2 heq).append_left [_] fun _ _ => .minus hb
  | groupInParens hb h hu ih =>
    refine beginsUnit_parenthesized hb h hu ht (fun xs' ys' hts' hrest => ?_) hts
    subst hrest
    exact ih (rangeless_cons.1 hxs).2 hts'
  | otherInParens hb h hu hkind ih =>
    rw [← parenthesized_of_ne_group hkind]
    refine beginsUnit_parenthesized hb h hu ht (fun xs' ys' hts' hrest => ?_) hts
    subst hrest
    exact ih (rangeless_cons.1 hxs).2 hts'
  | range hb hl hsep hr hu =>
    refine beginsUnit_of_tail (.range hb hl hsep hr hu) hts fun rest hrest _ => ?_
    subst hrest
    simpa [hb, Lexeme.isBracket] using hxs _ List.mem_cons_self
  | @field ts e b u v hb hu h ih =>
    refine beginsUnit_of_tail (.field hb hu h) hts fun rest hrest htail => ?_
    subst hrest
    rcases List.append_eq_cons_iff.1 htail with ⟨-, heq⟩ | ⟨rest, rfl, heq⟩
    · have hne : t ≠ u := ne_of_startsUnit ht (by simp [hu, Lexeme.startsUnit])
      exact absurd (List.cons.inj heq).1 hne
    · have hrest : Rangeless rest := (rangeless_cons.1 (rangeless_cons.1 hxs).2).2
      exact (ih hrest heq.symm).append_left [_, _] fun _ _ => .field hb hu
  | fuzzy hb hu =>
    exact beginsUnit_pair (.fuzzy hb hu) hts (ne_of_startsUnit ht (by simp [hu, Lexeme.startsUnit]))
  | proximity hb hu hslop =>
    exact beginsUnit_pair (.proximity hb hu hslop) hts
      (ne_of_startsUnit ht (by simp [hu, Lexeme.startsUnit]))
  | word hb => exact beginsUnit_singleton (.word hb) hts
  | phrase hb => exact beginsUnit_singleton (.phrase hb) hts
  | regex hb => exact beginsUnit_singleton (.regex hb) hts
  | url hb => exact beginsUnit_singleton (.url hb) hts
  | doi hb => exact beginsUnit_singleton (.doi hb) hts
  | reserved hb => exact beginsUnit_singleton (.reserved hb) hts

/-! ### The reserved word as a word -/

/-- The reserved word as the bare word that was typed, and any other token as it is. -/
def Token.freed (t : Token) : Token :=
  if t.lexeme = .to then { t with lexeme := .term t.raw } else t

theorem Token.freed_of_to (ht : t.lexeme = .to) : t.freed = { t with lexeme := .term t.raw } :=
  if_pos ht

theorem Token.lexeme_freed_of_to (ht : t.lexeme = .to) : t.freed.lexeme = .term t.raw := by
  rw [freed_of_to ht]

theorem Token.freed_of_ne (ht : t.lexeme ≠ .to) : t.freed = t := if_neg ht

@[simp] theorem Token.position_freed (t : Token) : t.freed.position = t.position := by
  rw [freed]
  split <;> rfl

@[simp] theorem Token.freed_freed (t : Token) : t.freed.freed = t.freed := by
  by_cases ht : t.lexeme = .to
  · rw [freed_of_to ht]
    exact freed_of_ne Lexeme.noConfusion
  · rw [freed_of_ne ht, freed_of_ne ht]

@[simp] theorem Token.isBracket_freed (t : Token) :
    t.freed.lexeme.isBracket = t.lexeme.isBracket := by
  rw [freed]
  split
  · rename_i ht
    rw [ht]
    rfl
  · rfl

theorem isBracket_of_continuesUnary (hu : u.lexeme.continuesUnary = true) :
    u.lexeme.isBracket = false := by
  cases hlex : u.lexeme <;> simp_all [Lexeme.isBracket, Lexeme.continuesUnary]

theorem Token.freed_of_continuesUnary (hu : u.lexeme.continuesUnary = true) : u.freed = u :=
  freed_of_ne fun hto => by simp [hto, Lexeme.continuesUnary] at hu

/-- The reserved word is a unit by itself. -/
theorem unit_of_to (ht : t.lexeme = .to) (h : Derives .unary (t :: us) e) :
    us = [] ∧ e = .word t.raw := by
  cases h <;> simp_all

/-- A word that is followed by no colon and no tilde is a unit by itself. -/
theorem unit_of_term {v : String} (ht : t.lexeme = .term v) (h : Derives .unary (t :: us) e)
    (hends : Ends Lexeme.continuesUnary us) : us = [] ∧ e = .word v := by
  cases h <;> simp_all [Lexeme.continuesUnary]

theorem Ends.left {p : Lexeme → Bool} (h : Ends p (ts ++ us)) : Ends p ts := by
  cases ts with
  | nil => exact ends_nil p
  | cons t ts => exact h

/-- What stands after the reserved word does not go on with it. -/
theorem ends_of_derives_to (h : Derives rule (xs ++ t :: ys) e) (hxs : Rangeless xs)
    (ht : t.lexeme = .to) : Ends Lexeme.continuesUnary ys := by
  obtain ⟨used, rest, f, k, rfl, hf, -, hends, -⟩ :=
    h.beginsUnit hxs (by rw [ht]; rfl)
  obtain ⟨rfl, -⟩ := unit_of_to ht hf
  exact hends

/-- The reserved word is read like the word that was typed, wherever no colon or tilde follows. -/
theorem derives_freed_iff (hxs : Rangeless xs) (ht : t.lexeme = .to)
    (hys : Ends Lexeme.continuesUnary ys) :
    Derives rule (xs ++ t.freed :: ys) e ↔ Derives rule (xs ++ t :: ys) e := by
  have hfreed := Token.lexeme_freed_of_to ht
  constructor
  · intro h
    obtain ⟨used, rest, f, k, rfl, hf, rfl, -, hany⟩ := h.beginsUnit hxs (by rw [hfreed]; rfl)
    obtain ⟨rfl, rfl⟩ := unit_of_term hfreed hf hys.left
    simpa using hany [t] _ (.reserved ht)
  · intro h
    obtain ⟨used, rest, f, k, rfl, hf, rfl, -, hany⟩ := h.beginsUnit hxs (by rw [ht]; rfl)
    obtain ⟨rfl, rfl⟩ := unit_of_to ht hf
    simpa using hany [t.freed] _ (.word hfreed)

/-- Each reserved word of `xs` is followed by no colon and no tilde, also where `ys` follows. -/
def StandsAlone (xs ys : List Token) : Prop :=
  ∀ (used : List Token) (t : Token) (rest : List Token), xs = used ++ t :: rest →
    t.lexeme = .to → Ends Lexeme.continuesUnary (rest ++ ys)

/-- The reserved words of `xs` are read like words, if each stands alone. -/
theorem derives_map_freed_iff (before : List Token) (hxs : Rangeless (before ++ xs))
    (halone : StandsAlone xs ys) :
    Derives rule (before ++ xs.map Token.freed ++ ys) e ↔ Derives rule (before ++ xs ++ ys) e := by
  induction xs generalizing before with
  | nil => rw [List.map_nil]
  | cons t xs ih =>
    have halone' : StandsAlone xs ys := fun used u rest h hu =>
      halone (t :: used) u rest (by rw [h]; rfl) hu
    have hrest : Rangeless (before ++ [t.freed] ++ xs) := by
      simpa [rangeless_append, rangeless_cons] using hxs
    rw [List.map_cons, List.append_cons, ih _ hrest halone', List.append_assoc, List.append_assoc,
      List.singleton_append, List.append_assoc, List.cons_append]
    by_cases ht : t.lexeme = .to
    · exact derives_freed_iff (rangeless_append.1 hxs).1 ht (halone [] t xs rfl ht)
    · rw [Token.freed_of_ne ht]

theorem standsAlone_of_derives (h : Derives rule (xs ++ ys) e) (hxs : Rangeless xs) :
    StandsAlone xs ys := by
  rintro used t rest rfl ht
  rw [List.append_assoc] at h
  exact ends_of_derives_to h (rangeless_append.1 hxs).1 ht

theorem Begins.freed (h : Begins rule xs) (hxs : Rangeless xs) :
    Begins rule (xs.map Token.freed) := by
  obtain ⟨more, e, hd⟩ := h
  exact ⟨more, e, (derives_map_freed_iff [] hxs (standsAlone_of_derives hd hxs)).2 hd⟩

/-! ### Outcomes -/

/-- The same tree, or an error at the same place. -/
def SameOutcome : Except SyntaxError (Option Expr) → Except SyntaxError (Option Expr) → Prop
  | .ok e, .ok f => e = f
  | .error err, .error err' => err.position? = err'.position?
  | _, _ => False

/-- Some query goes on with a reserved word here, and a colon or a tilde follows the word. -/
def AppliesReserved (ts : List Token) : Prop :=
  ∃ (used : List Token) (t u : Token) (rest : List Token), ts = used ++ t :: u :: rest ∧
    t.lexeme = .to ∧ u.lexeme.continuesUnary = true ∧ Begins .expression (used ++ [t])

theorem standsAlone_of_not_applies (h : ¬ AppliesReserved (xs ++ ys))
    (hbegins : Begins .expression xs) : StandsAlone xs ys := by
  rintro used t rest rfl ht u hu
  rw [Option.mem_def, List.head?_eq_some_iff] at hu
  obtain ⟨tail, htail⟩ := hu
  rw [← Bool.not_eq_true]
  refine fun hcontinues => h ⟨used, t, u, tail, by simp [← htail], ht, hcontinues, ?_⟩
  exact hbegins.of_isPrefix ⟨rest, (List.append_cons ..).symm⟩

/-- A token that cannot go on cannot either after the words that were typed, if no reserved word is
applied. -/
theorem not_begins_freed {after : List Token} (hts : Rangeless (xs ++ t :: after))
    (hfree : ¬ AppliesReserved (xs ++ t :: after)) (hbegins : Begins .expression xs)
    (hstuck : ¬ Begins .expression (xs ++ [t])) :
    ¬ Begins .expression (xs.map Token.freed ++ [t.freed]) := by
  rintro ⟨more, e, hd⟩
  rw [← List.append_cons] at hd
  have hxs : Rangeless xs := (rangeless_append.1 hts).1
  have hkept : ∃ rest f, Derives .expression (xs.map Token.freed ++ t :: rest) f := by
    by_cases ht : t.lexeme = .to
    · -- whatever the freed word begins, the reserved word may stand for it
      have hstarts : t.freed.lexeme.startsUnit = true := by
        rw [Token.lexeme_freed_of_to ht]
        rfl
      have hmap : Rangeless (xs.map Token.freed) := by simpa [Rangeless] using hxs
      obtain ⟨used, rest, f, k, -, -, -, -, hany⟩ := hd.beginsUnit hmap hstarts
      exact ⟨rest, k (.word t.raw), by simpa using hany [t] _ (.reserved ht)⟩
    · exact ⟨more, e, Token.freed_of_ne ht ▸ hd⟩
  obtain ⟨rest, f, hf⟩ := hkept
  have halone : StandsAlone xs (t :: rest) := fun used u us h hu => by
    have hends := standsAlone_of_not_applies hfree hbegins used u us h hu
    cases us with
    | nil => simpa using hends
    | cons => exact hends
  have hback := (derives_map_freed_iff [] hxs halone).1 hf
  exact hstuck ⟨rest, f, by simpa using hback⟩

/-- Where no reserved word is applied, the reserved words may as well be words. -/
theorem sameOutcome_of_not_applies (hts : Rangeless ts) (hfree : ¬ AppliesReserved ts) :
    SameOutcome (parseTokens ts) (parseTokens (ts.map Token.freed)) := by
  cases h : parseTokens ts with
  | ok e? =>
    cases e? with
    | none =>
      rw [parseTokens_eq_ok_none_iff.1 h]
      exact rfl
    | some e =>
      have hd : Derives .expression (ts ++ []) e := by simpa using derives_of_parseTokens h
      have hfreed := (derives_map_freed_iff [] hts (standsAlone_of_derives hd hts)).2 hd
      rw [parseTokens_of_derives (by simpa using hfreed)]
      exact rfl
  | error err =>
    cases err with
    | endOfInput =>
      have hbegins := begins_of_endOfInput h
      have hnot : ¬ ∃ e, Derives .expression (ts.map Token.freed) e := by
        rintro ⟨e, hd⟩
        have halone : StandsAlone ts [] := standsAlone_of_not_applies (by simpa using hfree) hbegins
        have hback := (derives_map_freed_iff [] hts halone).1 (by simpa using hd)
        exact not_derives_of_error h ⟨e, by simpa using hback⟩
      have hne : ts ≠ [] := by
        rintro rfl
        cases h
      rw [parseTokens_eq_endOfInput (by simpa using hne) (hbegins.freed hts) hnot]
      exact rfl
    | unexpected t =>
      obtain ⟨before, after, rfl, hbegins, hstuck⟩ := begins_of_unexpected h
      have hbefore : Rangeless before := (rangeless_append.1 hts).1
      rw [List.map_append, List.map_cons, parseTokens_eq_unexpected (hbegins.freed hbefore)
        (not_begins_freed hts hfree hbegins hstuck)]
      exact congrArg some t.position_freed.symm

/-- Where a reserved word is applied, the tokens cannot go on, and the freed ones can. -/
theorem parseTokens_of_applies (ht : t.lexeme = .to) (hu : u.lexeme.continuesUnary = true)
    (hxs : Rangeless xs) (hbegins : Begins .expression (xs ++ [t])) (rest : List Token) :
    parseTokens (xs ++ t :: u :: rest) = .error (.unexpected u) ∧
      Begins .expression (xs.map Token.freed ++ [t.freed, u]) := by
  have hstuck : ¬ Begins .expression (xs ++ [t] ++ [u]) := by
    rintro ⟨more, e, hd⟩
    have hends : Ends Lexeme.continuesUnary (u :: more) :=
      ends_of_derives_to (by simpa using hd) hxs ht
    rw [ends_cons, hu] at hends
    cases hends
  refine ⟨List.append_cons .. ▸ parseTokens_eq_unexpected hbegins hstuck rest, ?_⟩
  have hfreed := Token.lexeme_freed_of_to ht
  -- the word as the name of a field, or with a degree of similarity
  have hunit : ∃ tail g, Derives .unary (t.freed :: u :: tail) g := by
    cases hlex : u.lexeme with
    | colon => exact ⟨[t], _, .field hfreed hlex (.reserved ht)⟩
    | approx degree => exact ⟨[], _, .fuzzy hfreed hlex⟩
    | _ => simp [hlex, Lexeme.continuesUnary] at hu
  obtain ⟨tail, g, hg⟩ := hunit
  obtain ⟨more, e, hd⟩ := hbegins
  rw [← List.append_cons] at hd
  obtain ⟨used, rest, f, k, -, -, -, -, hany⟩ := hd.beginsUnit hxs (by rw [ht]; rfl)
  have happlied : Begins .expression (xs ++ [t.freed, u]) :=
    ⟨tail ++ rest, k g, by simpa using hany _ g hg⟩
  have hrange : Rangeless (xs ++ [t.freed, u]) :=
    rangeless_append.2 ⟨hxs, rangeless_cons.2 ⟨by rw [hfreed]; rfl,
      rangeless_cons.2 ⟨isBracket_of_continuesUnary hu, rangeless_nil⟩⟩⟩
  simpa [Token.freed_of_continuesUnary hu] using happlied.freed hrange

theorem position_lt_of_isPrefix (h : (ys ++ u :: us).Pairwise (·.position < ·.position))
    (hxs : xs ++ [t] <+: ys) : t.position < u.position :=
  (List.pairwise_append.1 h).2.2 t (hxs.subset (by simp)) u List.mem_cons_self

/-- A place is the place of one token only. -/
theorem eq_of_position_eq (h : (xs ++ t :: ts).Pairwise (·.position < ·.position))
    (heq : xs ++ t :: ts = ys ++ u :: us) (hpos : t.position = u.position) : xs = ys ∧ t = u := by
  rcases eq_or_prefix_of_append_eq heq with hsame | hearlier | hlater
  · exact hsame
  · exact absurd (position_lt_of_isPrefix (heq ▸ h) hearlier) (by omega)
  · exact absurd (position_lt_of_isPrefix h hlater) (by omega)

/-- A colon or tilde after a reserved word tells the reserved word from a word. -/
theorem not_applies_of_sameOutcome (hts : Rangeless ts)
    (hpos : ts.Pairwise (·.position < ·.position))
    (hsame : SameOutcome (parseTokens ts) (parseTokens (ts.map Token.freed))) :
    ¬ AppliesReserved ts := by
  rintro ⟨used, t, u, rest, rfl, ht, hu, hbegins⟩
  obtain ⟨herror, hgoes⟩ :=
    parseTokens_of_applies ht hu (rangeless_append.1 hts).1 hbegins rest
  rw [herror] at hsame
  cases hfreed : parseTokens ((used ++ t :: u :: rest).map Token.freed) with
  | ok e? => rw [hfreed] at hsame; exact hsame
  | error err =>
    rw [hfreed] at hsame
    cases err with
    | endOfInput => cases hsame
    | unexpected w =>
      obtain ⟨before, after, heq, -, hstuck⟩ := begins_of_unexpected hfreed
      -- an error at the same place would be at `u`, and there the freed tokens go on
      have hsplit : (used ++ t :: u :: rest).map Token.freed =
          (used.map Token.freed ++ [t.freed]) ++ u :: rest.map Token.freed := by
        simp [Token.freed_of_continuesUnary hu]
      have hmap : ((used ++ t :: u :: rest).map Token.freed).Pairwise
          (·.position < ·.position) := by
        simpa only [List.pairwise_map, Token.position_freed] using hpos
      rw [hsplit] at hmap heq
      obtain ⟨rfl, rfl⟩ := eq_of_position_eq hmap heq (Option.some.inj hsame)
      exact hstuck (by simpa using hgoes)

/-- **When the reserved word is an ordinary word outside ranges.** A list of tokens without brackets
of ranges is read with its reserved words as without them, unless one is applied, and only then if
the tokens stand one after the other. -/
theorem sameOutcome_freed_iff (hts : Rangeless ts) :
    (¬ AppliesReserved ts → SameOutcome (parseTokens ts) (parseTokens (ts.map Token.freed))) ∧
    (ts.Pairwise (·.position < ·.position) →
      SameOutcome (parseTokens ts) (parseTokens (ts.map Token.freed)) → ¬ AppliesReserved ts) :=
  ⟨sameOutcome_of_not_applies hts, not_applies_of_sameOutcome hts⟩

theorem sameOutcome_freed_iff_go_to :
    Rangeless (tokenize "-go TO (to") ∧ ¬ AppliesReserved (tokenize "-go TO (to") ∧
      SameOutcome (parseTokens (tokenize "-go TO (to"))
        (parseTokens ((tokenize "-go TO (to").map Token.freed)) := by
  have hts : Rangeless (tokenize "-go TO (to") := by
    have hall : ((tokenize "-go TO (to").all fun t => !t.lexeme.isBracket) = true := by
      with_unfolding_all rfl
    simpa [Rangeless] using hall
  have hnone : ¬ AppliesReserved (tokenize "-go TO (to") := by
    have hall : ((tokenize "-go TO (to").all fun t => !t.lexeme.continuesUnary) = true := by
      with_unfolding_all rfl
    rintro ⟨used, t, u, rest, heq, -, hu, -⟩
    rw [heq] at hall
    simp [hu] at hall
  have hsame := (sameOutcome_freed_iff hts).1 hnone
  exact ⟨hts, (sameOutcome_freed_iff hts).2 (pairwise_position_tokenize _) hsame, hsame⟩

/-- Outside ranges the reserved word is no name of a field. -/
theorem not_sameOutcome_freed_of_colon :
    Rangeless (tokenize "TO:x") ∧
      parseTokens (tokenize "TO:x") = .error (.unexpected ⟨.colon, ":", 2⟩) ∧
      parseTokens ((tokenize "TO:x").map Token.freed) = .ok (some (.field "to" (.word "x"))) ∧
      ¬ SameOutcome (parseTokens (tokenize "TO:x"))
        (parseTokens ((tokenize "TO:x").map Token.freed)) := by
  have hts : Rangeless (tokenize "TO:x") := by
    have hall : ((tokenize "TO:x").all fun t => !t.lexeme.isBracket) = true := by
      with_unfolding_all rfl
    simpa [Rangeless] using hall
  have herror : parseTokens (tokenize "TO:x") = .error (.unexpected ⟨.colon, ":", 2⟩) := by
    with_unfolding_all rfl
  have hok : parseTokens ((tokenize "TO:x").map Token.freed) =
      .ok (some (.field "to" (.word "x"))) := by with_unfolding_all rfl
  exact ⟨hts, herror, hok, by rw [herror, hok]; exact id⟩

/-- The texts without ranges that are read as if the reserved word was none. -/
theorem sameOutcome_parse_iff {s : String} (hts : Rangeless (tokenize s)) :
    SameOutcome (parse s) (parseTokens ((tokenize s).map Token.freed)) ↔
      ¬ AppliesReserved (tokenize s) :=
  ⟨not_applies_of_sameOutcome hts (pairwise_position_tokenize s), sameOutcome_of_not_applies hts⟩

end SearchQuery
