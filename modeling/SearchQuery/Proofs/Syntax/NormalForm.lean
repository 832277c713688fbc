import SearchQuery.Proofs.Syntax.Grammar
import SearchQuery.Proofs.Token.Reading

/-!
# Normal forms of query trees

The trees that reading a text can yield, described without the reader: which nodes may hold which,
and what the nodes at the ends of the branches hold. The first part is the same for every text; the
second is a parameter.

## Two lexicons

`Lexicon.plain` has the words, phrases and numbers that are written without escapes and look like
nothing else. `Lexicon.readable` has everything that a text can be read as. A plain tree is written
as a text that is read as the same tree. A readable tree is so only if its words stay words in the
text that is written, which `Expr.legible` computes.

## Main definitions

* `Lexicon` — what the ends of the branches hold
* `Expr.Normal` — the normal form over a lexicon
* `Lexicon.plain`, `Lexicon.readable` — the two lexicons
* `Expr.legible` — the words and names of the tree stay what they are where they are written

## Main results

* `Expr.Normal.exists_cons` — the text of a tree does not begin with a blank
* `Derives.normal` — what readable tokens derive is a readable normal form
-/

namespace SearchQuery

/-- What the nodes at the ends of the branches may hold. -/
structure Lexicon where
  /-- The words. -/
  word : String → Prop
  /-- The words that may only stand by themselves. -/
  reserved : String → Prop
  /-- The names of fields. -/
  name : String → Prop
  /-- The phrases. -/
  phrase : String → Prop
  /-- The regular expressions. -/
  regex : String → Prop
  /-- The addresses. -/
  url : String → Prop
  /-- The identifiers. -/
  doi : String → Prop
  /-- The scores of boosts and degrees of fuzzy words. -/
  score : Decimal → Prop

namespace Lexicon

/-- A word of letters and digits of ASCII that begins with a letter and is not reserved. -/
def IsPlainWord (v : String) : Prop :=
  (∃ c cs, v.toList = c :: cs ∧ c.isAlpha = true ∧ ∀ d ∈ cs, d.isAlphanum = true) ∧
    v ≠ "TO" ∧ v ≠ "to"

/-- A decimal number without a sign that has no places to spare. -/
def IsPlainScore (d : Decimal) : Prop := d.negative = false ∧ d.normalize = d

/-- What is written without escapes and looks like nothing else. -/
def plain : Lexicon where
  word := IsPlainWord
  reserved _ := False
  name v := IsPlainWord v ∧ ∀ c ∈ v.toList, c.isUpper = false
  phrase v := ∀ c ∈ v.toList, isQuote c = false ∧ c ≠ '\\'
  regex v := v ≠ "" ∧ ∀ c ∈ v.toList, c ≠ '\\'
  url _ := False
  doi _ := False
  score := IsPlainScore

/-- What a text can be read as. -/
def readable : Lexicon where
  word v := IsWord v.toList ∧ v ≠ "TO" ∧ v ≠ "to"
  reserved v := v = "TO" ∨ v = "to"
  name v := IsWord v.toList ∧ Text.lower v = v
  phrase v := PhraseBody v.toList
  regex v := RegexBody v.toList
  url v := IsUrl v.toList
  doi v := IsDoi v.toList
  score := IsPlainScore

end Lexicon

namespace Expr

/-- A bound of a range. -/
inductive IsBound (L : Lexicon) : Expr → Prop where
  /-- A word. -/
  | word {v : String} (h : L.word v) : IsBound L (.word v)
  /-- A phrase. -/
  | phrase {v : String} (h : L.phrase v) : IsBound L (.phrase v)

/-- The normal form: no group is empty or ends in a group, and boosts stand at the root, in groups
and in boosts only. -/
inductive Normal (L : Lexicon) : Expr → Prop where
  /-- A word. -/
  | word {v : String} (h : L.word v) : Normal L (.word v)
  /-- A reserved word by itself. -/
  | reserved {v : String} (h : L.reserved v) : Normal L (.word v)
  /-- A phrase. -/
  | phrase {v : String} (h : L.phrase v) : Normal L (.phrase v)
  /-- A regular expression. -/
  | regex {v : String} (h : L.regex v) : Normal L (.regex v)
  /-- An address. -/
  | url {v : String} (h : L.url v) : Normal L (.url v)
  /-- An identifier. -/
  | doi {v : String} (h : L.doi v) : Normal L (.doi v)
  /-- A search in a field. -/
  | field {name : String} {body : Expr} (hname : L.name name) (hbody : Normal L body)
      (hkind : body.kind ≠ .boost) : Normal L (.field name body)
  /-- A group. -/
  | group {operands : List Expr} (hne : operands ≠ []) (h : ∀ e ∈ operands, Normal L e)
      (hlast : ∀ e ∈ operands.getLast?, e.kind ≠ .group) : Normal L (.group operands)
  /-- A range. -/
  | range {left right : Expr} {il ir : Bool} (hleft : IsBound L left) (hright : IsBound L right) :
      Normal L (.range left right il ir)
  /-- A boost. -/
  | boost {body : Expr} {score : Decimal} (hbody : Normal L body) (hscore : L.score score) :
      Normal L (.boost body score)
  /-- A fuzzy word. -/
  | fuzzy {v : String} {slop : Decimal} (h : L.word v) (hslop : L.score slop) :
      Normal L (.fuzzy (.word v) slop)
  /-- A phrase with a distance. -/
  | proximity {v : String} {slop : UInt32} (h : L.phrase v) :
      Normal L (.proximity (.phrase v) slop)
  /-- A requirement. -/
  | plus {inner : Expr} (h : Normal L inner) (hkind : inner.kind ≠ .boost) :
      Normal L (.plus inner)
  /-- An exclusion. -/
  | minus {inner : Expr} (h : Normal L inner) (hkind : inner.kind ≠ .boost) :
      Normal L (.minus inner)

/-! ### Legibility -/

mutual

/-- Whether the words and names of a tree stay what they are in its text before `rest`: no address
or identifier begins at them, and a name before a colon is not reserved and ends in no blank. -/
def legible (rest : List Char) : Expr → Bool
  | word v => !beginsIdentifier (v.toList ++ rest)
  | phrase _ | regex _ | doi _ | url _ => true
  | field name body =>
    name != "to" && !endsInBlank name.toList &&
      !beginsIdentifier (name.toList ++ ':' :: (chars body ++ rest)) && legible rest body
  | group operands => legibleAll (')' :: rest) operands
  | synonyms alternatives => legibleAll (')' :: rest) alternatives
  | range left right _ ir =>
    legible (" TO ".toList ++ (chars right ++ (if ir then ']' else '\x7d') :: rest)) left &&
      legible ((if ir then ']' else '\x7d') :: rest) right
  | boost body score => legible ('^' :: score.normalize.chars ++ rest) body
  | fuzzy term slop => legible ('~' :: slop.normalize.chars ++ rest) term
  | proximity term slop => legible ('~' :: Number.digits slop.toNat ++ rest) term
  | plus inner => legible rest inner
  | minus inner => legible rest inner

/-- Whether the words and names of trees side by side stay what they are before `rest`. -/
def legibleAll (rest : List Char) : List Expr → Bool
  | [] => true
  | [e] => legible rest e
  | e :: es => legible (' ' :: (charsOfAll es ++ rest)) e && legibleAll rest es

end

end Expr

/-! ### The first character -/

theorem isWord_of_reserved {v : String} (h : v = "TO" ∨ v = "to") : IsWord v.toList := by
  rcases h with rfl | rfl
  · exact ⟨.char (by decide) (.char (by decide) .nil), _, _, rfl, by decide⟩
  · exact ⟨.char (by decide) (.char (by decide) .nil), _, _, rfl, by decide⟩

theorem IsWord.exists_cons {cs : List Char} (h : IsWord cs) :
    ∃ c ds, cs = c :: ds ∧ Text.isBlank c = false := by
  obtain ⟨c, ds, rfl, hstarts⟩ := h.starts
  exact ⟨c, ds, rfl, isBlank_of_startsWord hstarts⟩

/-- The text of a tree does not begin with a blank. -/
theorem Expr.Normal.exists_cons {e : Expr} (h : e.Normal Lexicon.readable) :
    ∃ c cs, e.chars = c :: cs ∧ Text.isBlank c = false := by
  induction h with
  | word h => exact h.1.exists_cons
  | reserved h => exact (isWord_of_reserved h).exists_cons
  | phrase | proximity => exact ⟨'"', _, rfl, by decide⟩
  | regex => exact ⟨'/', _, rfl, by decide⟩
  | url h =>
    obtain ⟨o, body, hcs, ho, -⟩ := h
    obtain ⟨c, cs, rfl, hc⟩ := ho.exists_cons
    exact ⟨c, _, hcs, isBlank_of_isAlphanum hc⟩
  | doi h =>
    obtain ⟨ds, name, last, hcs, -⟩ := h.parts
    exact ⟨'1', _, hcs, by decide⟩
  | field hname =>
    obtain ⟨c, cs, hcs, hc⟩ := hname.1.exists_cons
    exact ⟨c, _, by rw [chars, hcs]; rfl, hc⟩
  | group => exact ⟨'(', _, rfl, by decide⟩
  | @range left right il ir =>
    cases il with
    | false => exact ⟨'\x7b', _, rfl, by decide⟩
    | true => exact ⟨'[', _, rfl, by decide⟩
  | boost _ _ ih =>
    obtain ⟨c, cs, hcs, hc⟩ := ih
    exact ⟨c, _, by rw [chars, hcs]; rfl, hc⟩
  | fuzzy h =>
    obtain ⟨c, cs, hcs, hc⟩ := h.1.exists_cons
    exact ⟨c, _, by rw [chars, chars, hcs]; rfl, hc⟩
  | plus => exact ⟨'+', _, rfl, by decide⟩
  | minus => exact ⟨'-', _, rfl, by decide⟩

theorem Expr.Normal.touches {e : Expr} (h : e.Normal Lexicon.readable) (rest : List Char) :
    touches (e.chars ++ rest) = true := by
  obtain ⟨c, cs, hcs, hc⟩ := h.exists_cons
  rw [hcs, List.cons_append, SearchQuery.touches, hc]
  rfl

/-! ### What is derived is normal -/

theorem isPlainScore_normalize {d : Decimal} (h : d.negative = false) :
    Lexicon.IsPlainScore d.normalize :=
  ⟨Decimal.negative_normalize h, Decimal.normalize_normalize d⟩

theorem isPlainScore_getD {degree : Option Decimal} {d : Decimal}
    (h : ∀ d ∈ degree, d.negative = false) (hd : d.negative = false) :
    Lexicon.IsPlainScore (degree.getD d).normalize := by
  cases degree with
  | none => exact isPlainScore_normalize hd
  | some d => exact isPlainScore_normalize (h d rfl)

variable {t : Token} {v : String}

theorem Token.Readable.lexeme {l : Lexeme} (h : t.Readable) (ht : t.lexeme = l) :
    l.Readable t.raw := ht ▸ h

theorem Bound.isBound {e : Expr} (hb : Bound t e) (h : t.Readable) :
    e.IsBound Lexicon.readable := by
  cases hb with
  | word ht => exact .word (h.lexeme ht)
  | phrase ht => exact .phrase (h.lexeme ht)

theorem name_lower (h : IsWord v.toList) : Lexicon.readable.name (Text.lower v) := by
  refine ⟨?_, Text.lower_lower v⟩
  rw [Text.lower, String.toList_ofList]
  exact h.lowercase

theorem Beside.normal {L : Lexicon} {e f g : Expr} (h : Beside e f g) (he : e.Normal L)
    (hf : f.Normal L) : g.Normal L := by
  cases h with
  | group =>
    cases hf with
    | @group operands hne h hlast =>
      refine .group (by simp) (by simpa [he] using h) ?_
      rwa [List.getLast?_cons_of_ne_nil hne]
  | other hkind => exact .group (by simp) (by simp [he, hf]) (by simpa using hkind)

/-- **What readable tokens derive is a readable normal form.** -/
theorem Derives.normal {r : Rule} {ts : List Token} {e : Expr} (h : Derives r ts e)
    (hts : ∀ t ∈ ts, t.Readable) :
    e.Normal Lexicon.readable ∧ (r = .unary → e.kind ≠ .boost) := by
  induction h with
  | alone _ ih => exact ⟨(ih hts).1, fun h => by cases h⟩
  | beside _ _ hg ih ihs =>
    rw [List.forall_mem_append] at hts
    exact ⟨hg.normal (ih hts.1).1 (ihs hts.2).1, fun h => by cases h⟩
  | bare _ ih => exact ⟨(ih hts).1, fun h => by cases h⟩
  | boost _ ht ih =>
    rw [List.forall_mem_append] at hts
    have hscore := (hts.2 _ (List.mem_singleton_self _)).lexeme ht
    exact ⟨.boost (ih hts.1).1 (isPlainScore_getD hscore rfl), fun h => by cases h⟩
  | plus ht _ ih =>
    rw [List.forall_mem_cons] at hts
    exact ⟨.plus (ih hts.2).1 ((ih hts.2).2 rfl), by simp [Expr.kind]⟩
  | minus ht _ ih =>
    rw [List.forall_mem_cons] at hts
    exact ⟨.minus (ih hts.2).1 ((ih hts.2).2 rfl), by simp [Expr.kind]⟩
  | groupInParens ht _ hu ih =>
    rw [List.forall_mem_append, List.forall_mem_cons] at hts
    exact ⟨(ih hts.1.2).1, by simp [Expr.kind]⟩
  | otherInParens ht _ hu hkind ih =>
    rw [List.forall_mem_append, List.forall_mem_cons] at hts
    exact ⟨.group (by simp) (by simpa using (ih hts.1.2).1) (by simpa using hkind),
      by simp [Expr.kind]⟩
  | range ht hl hto hr hu =>
    exact ⟨.range (hl.isBound (hts _ (by simp))) (hr.isBound (hts _ (by simp))),
      by simp [Expr.kind]⟩
  | field ht hu _ ih =>
    rw [List.forall_mem_cons, List.forall_mem_cons] at hts
    have hword := (hts.1.lexeme ht).1
    exact ⟨.field (name_lower hword) (ih hts.2.2).1 ((ih hts.2.2).2 rfl), by simp [Expr.kind]⟩
  | fuzzy ht hu =>
    have hword := (hts _ (by simp)).lexeme ht
    have hdegree := (hts _ (by simp)).lexeme hu
    exact ⟨.fuzzy hword (isPlainScore_getD hdegree rfl), by simp [Expr.kind]⟩
  | proximity ht hu =>
    have hphrase := (hts _ (by simp)).lexeme ht
    exact ⟨.proximity hphrase, by simp [Expr.kind]⟩
  | word ht => exact ⟨.word ((hts _ (by simp)).lexeme ht), by simp [Expr.kind]⟩
  | phrase ht => exact ⟨.phrase ((hts _ (by simp)).lexeme ht), by simp [Expr.kind]⟩
  | regex ht => exact ⟨.regex ((hts _ (by simp)).lexeme ht), by simp [Expr.kind]⟩
  | url ht => exact ⟨.url ((hts _ (by simp)).lexeme ht), by simp [Expr.kind]⟩
  | doi ht => exact ⟨.doi ((hts _ (by simp)).lexeme ht), by simp [Expr.kind]⟩
  | reserved ht => exact ⟨.reserved ((hts _ (by simp)).lexeme ht), by simp [Expr.kind]⟩

end SearchQuery
