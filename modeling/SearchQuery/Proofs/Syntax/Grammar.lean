import SearchQuery.Expr.Basic
import SearchQuery.Text.Case
import SearchQuery.Token.Basic

/-!
# The grammar of queries

The grammar as a relation between token lists and trees, with no reader in sight. A derivation
uses every token of its list once: the lists of its parts are put side by side, and nothing stands
between or after them.

```
expression = boosted boosted*
boosted    = unary Boost*
unary      = Plus unary | Minus unary
           | Lparen expression Rparen
           | Lbracket bound To bound Rbracket
           | Term Colon unary
           | Term Approx | Phrase Approx
           | Term | Phrase | Regex | Url | Doi | To
bound      = Term | Phrase
```

## One relation for three rules

`Derives` takes the rule as an index instead of being three mutual relations, so that one
induction goes through all of them. The units of an expression are joined from the right, which is
why an expression is a unit, or a unit followed by an expression.

## Main definitions

* `Rule` — the rules that the trees come from
* `Bound` — the bound of a range
* `Beside` — a unit joined to those on its right
* `Distance` — the distance that a degree stands for
* `Derives` — the derivations of each rule, with their trees

## Main results

* `Derives.ne_nil` — a derivation uses at least one token
-/

namespace SearchQuery

/-- The rules of the grammar that derive trees. -/
inductive Rule where
  /-- Units side by side. -/
  | expression
  /-- A unit with its boosts. -/
  | boosted
  /-- A unit without boosts. -/
  | unary
  deriving DecidableEq, Repr

/-- The bound of a range is a term or a phrase. -/
inductive Bound : Token → Expr → Prop where
  /-- A bare word. -/
  | word {t : Token} {v : String} (ht : t.lexeme = .term v) : Bound t (.word v)
  /-- A phrase. -/
  | phrase {t : Token} {v : String} (ht : t.lexeme = .phrase v) : Bound t (.phrase v)

/-- A unit and what the units on its right make together. A group takes the unit in, and anything
else stands beside it in a group. -/
inductive Beside (e : Expr) : Expr → Expr → Prop where
  /-- There is a group on the right. -/
  | group (es : List Expr) : Beside e (.group es) (.group (e :: es))
  /-- There is something else on the right. -/
  | other {f : Expr} (hf : f.kind ≠ .group) : Beside e f (.group [e, f])

/-- The distance that a degree stands for, which is its whole part. Without a degree, or if the
whole part is negative or too large for a distance, it is one. -/
inductive Distance : Option Decimal → UInt32 → Prop where
  /-- The whole part of the degree. -/
  | whole {degree : Decimal} {slop : UInt32} (h : degree.wholePart? = some slop.toNat) :
      Distance (some degree) slop
  /-- There is no degree. -/
  | absent : Distance none 1
  /-- The whole part is no distance. -/
  | unfit {degree : Decimal} (h : ∀ slop : UInt32, degree.wholePart? ≠ some slop.toNat) :
      Distance (some degree) 1

/-- What the rules derive: all of the tokens make the tree. -/
inductive Derives : Rule → List Token → Expr → Prop where
  /-- A unit by itself. -/
  | alone {ts : List Token} {e : Expr} (h : Derives .boosted ts e) : Derives .expression ts e
  /-- A unit beside the units on its right, which are joined already. -/
  | beside {ts us : List Token} {e f g : Expr} (h : Derives .boosted ts e)
      (hs : Derives .expression us f) (hg : Beside e f g) : Derives .expression (ts ++ us) g
  /-- A unit without boosts. -/
  | bare {ts : List Token} {e : Expr} (h : Derives .unary ts e) : Derives .boosted ts e
  /-- One more boost. Without a score the score is one. -/
  | boost {ts : List Token} {e : Expr} {t : Token} {score : Option Decimal}
      (h : Derives .boosted ts e) (ht : t.lexeme = .boost score) :
      Derives .boosted (ts ++ [t]) (.boost e (score.getD .one).normalize)
  /-- A requirement. -/
  | plus {ts : List Token} {e : Expr} {t : Token} (ht : t.lexeme = .plus)
      (h : Derives .unary ts e) : Derives .unary (t :: ts) (.plus e)
  /-- An exclusion. -/
  | minus {ts : List Token} {e : Expr} {t : Token} (ht : t.lexeme = .minus)
      (h : Derives .unary ts e) : Derives .unary (t :: ts) (.minus e)
  /-- A group in parentheses is that group. -/
  | groupInParens {ts : List Token} {es : List Expr} {t u : Token} (ht : t.lexeme = .lparen)
      (h : Derives .expression ts (.group es)) (hu : u.lexeme = .rparen) :
      Derives .unary (t :: ts ++ [u]) (.group es)
  /-- Anything else in parentheses becomes the one operand of a group. -/
  | otherInParens {ts : List Token} {e : Expr} {t u : Token} (ht : t.lexeme = .lparen)
      (h : Derives .expression ts e) (hu : u.lexeme = .rparen) (he : e.kind ≠ .group) :
      Derives .unary (t :: ts ++ [u]) (.group [e])
  /-- A range. Square brackets include their bound. -/
  | range {t l sep r u : Token} {il ir : Bool} {left right : Expr}
      (ht : t.lexeme = .lbracket il) (hl : Bound l left) (hsep : sep.lexeme = .to)
      (hr : Bound r right) (hu : u.lexeme = .rbracket ir) :
      Derives .unary [t, l, sep, r, u] (.range left right il ir)
  /-- A search in a field, whose name is lowercased. -/
  | field {ts : List Token} {e : Expr} {t u : Token} {v : String} (ht : t.lexeme = .term v)
      (hu : u.lexeme = .colon) (h : Derives .unary ts e) :
      Derives .unary (t :: u :: ts) (.field (Text.lower v) e)
  /-- A fuzzy word. Without a degree the degree is one half. -/
  | fuzzy {t u : Token} {v : String} {degree : Option Decimal} (ht : t.lexeme = .term v)
      (hu : u.lexeme = .approx degree) :
      Derives .unary [t, u] (.fuzzy (.word v) (degree.getD .half).normalize)
  /-- A phrase with a distance. -/
  | proximity {t u : Token} {v : String} {degree : Option Decimal} {slop : UInt32}
      (ht : t.lexeme = .phrase v) (hu : u.lexeme = .approx degree) (hslop : Distance degree slop) :
      Derives .unary [t, u] (.proximity (.phrase v) slop)
  /-- A bare word. -/
  | word {t : Token} {v : String} (ht : t.lexeme = .term v) : Derives .unary [t] (.word v)
  /-- A phrase. -/
  | phrase {t : Token} {v : String} (ht : t.lexeme = .phrase v) : Derives .unary [t] (.phrase v)
  /-- A regular expression. -/
  | regex {t : Token} {v : String} (ht : t.lexeme = .regex v) : Derives .unary [t] (.regex v)
  /-- A web address. -/
  | url {t : Token} {v : String} (ht : t.lexeme = .url v) : Derives .unary [t] (.url v)
  /-- An identifier. -/
  | doi {t : Token} {v : String} (ht : t.lexeme = .doi v) : Derives .unary [t] (.doi v)
  /-- The reserved word outside a range is the word that was typed. -/
  | reserved {t : Token} (ht : t.lexeme = .to) : Derives .unary [t] (.word t.raw)

namespace Derives

variable {r : Rule} {ts : List Token} {e : Expr}

theorem ne_nil (h : Derives r ts e) : ts ≠ [] := by
  induction h with
  | alone _ ih | bare _ ih => exact ih
  | beside _ _ _ ih _ | boost _ _ ih => simp [ih]
  | _ => simp

end Derives

end SearchQuery
