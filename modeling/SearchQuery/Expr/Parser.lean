import SearchQuery.Expr.Basic
import SearchQuery.Token.Lexer

/-!
# Reading a query tree from tokens

The grammar, where a capitalized name stands for a token and `*` for any number:

```
expression = postfix postfix*
postfix    = unary Boost*
unary      = Plus unary | Minus unary
           | Lparen expression Rparen
           | Lbracket bound To bound Rbracket
           | Term Colon unary
           | Term Approx | Phrase Approx
           | Term | Phrase | Regex | Url | Doi | To
bound      = Term | Phrase
```

One token of look-ahead decides every choice, so a reader never goes back and the first token that
fits nowhere is the error.

## Units side by side

Units side by side form one group, and a group at their right end takes the units before it in:
`a (b c)` is `(a b c)`, while `(a b) c` keeps its inner group. Parentheses around a single unit make
a group of one.

## Termination

A reading holds the fact that it took at least one token. The readers of units and expressions call
each other on what a reading left, so the number of tokens falls, and between two calls on the same
tokens the rules are taken in a fixed order. Both are put into one number, three for each token and
the place of the rule: a recursion on a natural number can be run inside of a proof, and one on
pairs cannot.

## Main definitions

* `SyntaxError` — why tokens are no query
* `Reading` — a tree read from the front of a list of tokens
* `readExpression`, `readPostfix`, `readUnary` — one reader for each rule
* `parseTokens`, `parse` — the tree of all tokens, of a whole text
-/

namespace SearchQuery

/-- Why tokens are no query. -/
inductive SyntaxError where
  /-- No query goes on with this token here. -/
  | unexpected (token : Token)
  /-- The tokens end inside a query. -/
  | endOfInput
  deriving DecidableEq, Repr

/-- A tree read from the front of `ts`. At least one token belongs to it. -/
structure Reading (ts : List Token) where
  /-- The tree. -/
  tree : Expr
  /-- The tokens after those that belong to it. -/
  rest : List Token
  /-- Something was read. -/
  shorter : rest.length < ts.length

/-- The degree of similarity of a fuzzy word that gives none. -/
def defaultFuzzySlop : Decimal := Decimal.half

/-- The distance of a phrase that gives none. -/
def defaultProximitySlop : UInt32 := 1

/-- The distance of a phrase: the whole part of the degree if it has 32 bits. -/
def proximitySlop (degree : Option Decimal) : UInt32 :=
  match degree.bind Decimal.wholePart? with
  | some n => if n < UInt32.size then n.toUInt32 else defaultProximitySlop
  | none => defaultProximitySlop

/-- Two units side by side. A group on the right takes the unit on the left in. -/
def juxtapose (left : Expr) : Expr → Expr
  | .group operands => .group (left :: operands)
  | right => .group [left, right]

/-- An expression in parentheses. A group needs no other group around it. -/
def parenthesized : Expr → Expr
  | .group operands => .group operands
  | e => .group [e]

/-- Whether a unit can begin with the lexeme. -/
def Lexeme.startsUnit : Lexeme → Bool
  | .plus | .minus | .lparen | .lbracket _ | .term _ | .phrase _ | .regex _ | .url _ | .doi _
  | .to => true
  | _ => false

/-- Whether a unit can begin at the front of the tokens. -/
def startsUnit : List Token → Bool
  | t :: _ => t.lexeme.startsUnit
  | [] => false

/-- The boosts at the front of the tokens applied to a unit, the first one innermost, and the
tokens after them. -/
def applyBoosts (e : Expr) : List Token → Expr × List Token
  | [] => (e, [])
  | t :: ts =>
    match t.lexeme with
    | .boost score => applyBoosts (e.boosted (score.getD .one)) ts
    | _ => (e, t :: ts)

/-- Boosts only take tokens away. -/
theorem length_applyBoosts_le (e : Expr) (ts : List Token) :
    (applyBoosts e ts).2.length ≤ ts.length := by
  induction ts generalizing e with
  | nil => simp [applyBoosts]
  | cons t ts ih =>
    rw [applyBoosts]
    split
    · exact Nat.le_succ_of_le (ih _)
    · exact Nat.le_refl _

/-! ### Ranges -/

/-- A bound of a range at the front of the tokens. -/
def readBound : (ts : List Token) → Except SyntaxError (Reading ts)
  | [] => .error .endOfInput
  | t :: ts =>
    match t.lexeme with
    | .term v => .ok ⟨.word v, ts, by simp⟩
    | .phrase v => .ok ⟨.phrase v, ts, by simp⟩
    | _ => .error (.unexpected t)

/-- The tokens after the reserved word between the bounds. -/
def readTo : List Token → Except SyntaxError (List Token)
  | [] => .error .endOfInput
  | t :: ts => if t.lexeme = .to then .ok ts else .error (.unexpected t)

theorem length_lt_of_readTo {ts rest : List Token} (h : readTo ts = .ok rest) :
    rest.length < ts.length := by
  cases ts with
  | nil => cases h
  | cons t ts =>
    rw [readTo] at h
    split at h <;> cases h
    simp

/-- A range after its opening bracket. -/
def readRange (includeLeft : Bool) (ts : List Token) : Except SyntaxError (Reading ts) :=
  match readBound ts with
  | .error err => .error err
  | .ok left =>
    match hTo : readTo left.rest with
    | .error err => .error err
    | .ok afterTo =>
      match readBound afterTo with
      | .error err => .error err
      | .ok right =>
        match hEnd : right.rest with
        | [] => .error .endOfInput
        | t :: rest =>
          match t.lexeme with
          | .rbracket includeRight =>
            .ok ⟨.range left.tree right.tree includeLeft includeRight, rest, by
              have := length_lt_of_readTo hTo
              have := left.shorter
              have := right.shorter
              grind⟩
          | _ => .error (.unexpected t)

/-! ### Expressions -/

mutual

/-- A unit without boosts. -/
def readUnary : (ts : List Token) → Except SyntaxError (Reading ts)
  | [] => .error .endOfInput
  | t :: ts =>
    match t.lexeme with
    | .plus => do
      let inner ← readUnary ts
      return ⟨.plus inner.tree, inner.rest, Nat.lt_succ_of_lt inner.shorter⟩
    | .minus => do
      let inner ← readUnary ts
      return ⟨.minus inner.tree, inner.rest, Nat.lt_succ_of_lt inner.shorter⟩
    | .lparen => do
      let inner ← readExpression ts
      match h : inner.rest with
      | [] => throw .endOfInput
      | u :: rest =>
        if u.lexeme = .rparen then
          return ⟨parenthesized inner.tree, rest, by have := inner.shorter; grind⟩
        else throw (.unexpected u)
    | .lbracket inclusive => do
      let range ← readRange inclusive ts
      return ⟨range.tree, range.rest, Nat.lt_succ_of_lt range.shorter⟩
    | .term v =>
      match ts with
      | [] => return ⟨.word v, [], by simp⟩
      | u :: us =>
        match u.lexeme with
        | .colon => do
          let body ← readUnary us
          return ⟨.field (Text.lower v) body.tree, body.rest, by have := body.shorter; grind⟩
        | .approx degree =>
          return ⟨.fuzzy (.word v) (degree.getD defaultFuzzySlop).normalize, us, by grind⟩
        | _ => return ⟨.word v, u :: us, by simp⟩
    | .phrase v =>
      match ts with
      | [] => return ⟨.phrase v, [], by simp⟩
      | u :: us =>
        match u.lexeme with
        | .approx degree => return ⟨.proximity (.phrase v) (proximitySlop degree), us, by grind⟩
        | _ => return ⟨.phrase v, u :: us, by simp⟩
    | .regex v => return ⟨.regex v, ts, by simp⟩
    | .url v => return ⟨.url v, ts, by simp⟩
    | .doi v => return ⟨.doi v, ts, by simp⟩
    | .to => return ⟨.word t.raw, ts, by simp⟩
    | .rparen | .rbracket _ | .colon | .approx _ | .boost _ => throw (.unexpected t)
termination_by ts => 3 * ts.length

/-- A unit with its boosts. -/
def readPostfix (ts : List Token) : Except SyntaxError (Reading ts) := do
  let unit ← readUnary ts
  return ⟨(applyBoosts unit.tree unit.rest).1, (applyBoosts unit.tree unit.rest).2,
    Nat.lt_of_le_of_lt (length_applyBoosts_le _ _) unit.shorter⟩
termination_by 3 * ts.length + 1

/-- As many units side by side as there are. -/
def readExpression (ts : List Token) : Except SyntaxError (Reading ts) := do
  let unit ← readPostfix ts
  if startsUnit unit.rest then
    let more ← readExpression unit.rest
    return ⟨juxtapose unit.tree more.tree, more.rest, Nat.lt_trans more.shorter unit.shorter⟩
  else return unit
termination_by 3 * ts.length + 2
decreasing_by
  · omega
  · have := unit.shorter; omega

end

/-- The tree of all tokens; none if there are no tokens. -/
def parseTokens (ts : List Token) : Except SyntaxError (Option Expr) :=
  if ts.isEmpty then .ok none
  else
    match readExpression ts with
    | .error err => .error err
    | .ok reading =>
      match reading.rest with
      | [] => .ok (some reading.tree)
      | t :: _ => .error (.unexpected t)

/-- The tree of a query text; none if the text has no tokens. -/
def parse (s : String) : Except SyntaxError (Option Expr) := parseTokens (tokenize s)

end SearchQuery
