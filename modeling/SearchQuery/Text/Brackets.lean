/-!
# Brackets without a counterpart

Three kinds of brackets are told apart, and each kind is balanced on its own: `(` with `)`, `<`
with `>`, and the range brackets, where `[` and `{` both open and `]` and `}` both close. A
backslash hides the character after it, so a hidden bracket counts as plain text.

## Two passes

A closing bracket is unmatched when no bracket of its kind is open, which one pass from the left
sees by counting. An opening bracket is unmatched when no closing bracket of its kind is left for
it, which one pass from the right sees in the same way.

## Kinds do not see each other

The passes of one kind treat the other brackets as plain text, so `( [ ) ]` is left as it is. Nor do
they know of quotes or regular expressions: what is hidden is decided by backslashes alone, before
any bracket is looked at, and it stays hidden when something next to it is dropped.

## Main definitions

* `BracketKind` — the three kinds
* `exposure` — the characters with a flag that tells which ones are not hidden by a backslash
* `dropClosers`, `dropOpeners` — the two passes for one kind
* `removeUnmatched` — the text without the unmatched brackets of any kind

## Main results

* `map_fst_exposure` — flags are put on the characters of the text and on no others
-/

namespace SearchQuery.Text

/-- The kinds of brackets. -/
inductive BracketKind where
  /-- Round brackets. -/
  | round
  /-- Angle brackets. -/
  | angle
  /-- Square and curly brackets, which may be mixed. -/
  | range
  deriving DecidableEq, Repr

/-- Whether `c` opens a bracket of this kind. -/
def BracketKind.opens (kind : BracketKind) (c : Char) : Bool :=
  match kind with
  | round => c == '('
  | angle => c == '<'
  | range => c == '[' || c == '\x7b'

/-- Whether `c` closes a bracket of this kind. -/
def BracketKind.closes (kind : BracketKind) (c : Char) : Bool :=
  match kind with
  | round => c == ')'
  | angle => c == '>'
  | range => c == ']' || c == '\x7d'

theorem BracketKind.closes_eq_false_of_opens {kind : BracketKind} {c : Char}
    (h : kind.opens c = true) : kind.closes c = false := by
  cases kind with
  | range => simp [opens] at h; rcases h with rfl | rfl <;> decide
  | _ => simp_all [opens, closes]

/-- The characters of a text, each with whether it is exposed: a backslash and the character after
it are not. -/
def exposure : List Char → List (Char × Bool)
  | [] => []
  | ['\\'] => [('\\', false)]
  | '\\' :: c :: cs => ('\\', false) :: (c, false) :: exposure cs
  | c :: cs => (c, true) :: exposure cs

/-- The flags are put on the characters of the text. -/
theorem map_fst_exposure (cs : List Char) : (exposure cs).map Prod.fst = cs := by
  fun_induction exposure cs <;> simp_all

section OneKind

variable (kind : BracketKind)

/-- Whether the marked character is an exposed opening bracket. -/
def isOpener (m : Char × Bool) : Bool := m.2 && kind.opens m.1

/-- Whether the marked character is an exposed closing bracket. -/
def isCloser (m : Char × Bool) : Bool := m.2 && kind.closes m.1

/-- The text without the closing brackets that find none open; `depth` brackets are open at its
start. -/
def dropClosers (depth : Nat) : List (Char × Bool) → List (Char × Bool)
  | [] => []
  | m :: ms =>
    if isOpener kind m then m :: dropClosers (depth + 1) ms
    else if isCloser kind m then
      match depth with
      | 0 => dropClosers 0 ms
      | d + 1 => m :: dropClosers d ms
    else m :: dropClosers depth ms

/-- The text without the opening brackets for which no closing bracket is left, and how many
closing brackets of it still wait for an opening one further left. -/
def dropOpeners : List (Char × Bool) → List (Char × Bool) × Nat
  | [] => ([], 0)
  | m :: ms =>
    let (kept, waiting) := dropOpeners ms
    if isCloser kind m then (m :: kept, waiting + 1)
    else if isOpener kind m then
      match waiting with
      | 0 => (kept, 0)
      | w + 1 => (m :: kept, w)
    else (m :: kept, waiting)

/-- The text without the unmatched brackets of one kind. -/
def dropUnmatched (ms : List (Char × Bool)) : List (Char × Bool) :=
  (dropOpeners kind (dropClosers kind 0 ms)).1

end OneKind

/-- The text without its unmatched brackets. -/
def removeUnmatchedChars (cs : List Char) : List Char :=
  (dropUnmatched .range (dropUnmatched .angle (dropUnmatched .round (exposure cs)))).map Prod.fst

/-- The text without its unmatched brackets. -/
def removeUnmatched (s : String) : String := String.ofList (removeUnmatchedChars s.toList)

end SearchQuery.Text
