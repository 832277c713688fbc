import SearchQuery.Toml.Scalar

/-!
# Strings of settings files

Basic strings stand between double quotes and have escapes, literal strings stand between single
quotes and have none. Between three quotes either kind may go over several lines, whose ends are
kept as they are written; a line end right after the opening quotes does not count, and in a basic
string a backslash at the end of a line takes the blanks and line ends after it away.

## Readers

Each reader starts after the opening quotes and answers with the content and the text after the
closing quotes. An escape leaves less than there was, and a continued line leaves no more. Both are
lemmas beside the readers, since the readers of strings end by the length of the text.

## Closing quotes

Up to two quotes may stand before the three that close a string over several lines, so a run of up
to five quotes is looked at as a whole: the last three close, and those before belong to the
content.

## Main definitions

* `Toml.basic?`, `Toml.literal?`, `Toml.longBasic?`, `Toml.longLiteral?` — the four readers
* `Toml.quoted?` — the string at the front of a text, if it is written on one line

## Main results

* `Toml.length_lt_of_escape?`, `Toml.length_le_of_afterContinuation?` — what is left of a text
-/

namespace SearchQuery.Toml

/-- Whether `c` may stand for itself in a string or comment. -/
def isPlain (c : Char) : Bool := c == '\t' || (0x20 ≤ c.toNat && c.toNat != 0x7F)

/-- The character with the code point that hexadecimal digits write. -/
def codePoint? (ds : List Char) : Option Char :=
  (ds.foldlM (fun n c => (hexValue? c).map (16 * n + ·)) 0).bind fun n =>
    if n.isValidChar then some (Char.ofNat n) else none

/-- The character that a letter after a backslash stands for. -/
def shortEscape? (c : Char) : Option Char :=
  match c with
  | 'b' => some '\x08'
  | 't' => some '\t'
  | 'n' => some '\n'
  | 'f' => some '\x0c'
  | 'r' => some '\r'
  | '"' => some '"'
  | '\\' => some '\\'
  | _ => none

/-- The character that an escape stands for, and the text after it. -/
def escape? : List Char → Option (Char × List Char)
  | 'u' :: cs => (codePoint? (cs.take 4)).bind fun c =>
    if cs.length < 4 then none else some (c, cs.drop 4)
  | 'U' :: cs => (codePoint? (cs.take 8)).bind fun c =>
    if cs.length < 8 then none else some (c, cs.drop 8)
  | c :: cs => (shortEscape? c).map fun d => (d, cs)
  | [] => none

/-- An escape takes at least one character. -/
theorem length_lt_of_escape? {cs rest : List Char} {c : Char} (h : escape? cs = some (c, rest)) :
    rest.length < cs.length := by
  unfold escape? at h
  split at h
  · obtain ⟨d, -, h⟩ := Option.bind_eq_some_iff.1 h
    split at h <;> cases h
    simp only [List.length_drop, List.length_cons]
    omega
  · obtain ⟨d, -, h⟩ := Option.bind_eq_some_iff.1 h
    split at h <;> cases h
    simp only [List.length_drop, List.length_cons]
    omega
  · obtain ⟨d, -, h⟩ := Option.map_eq_some_iff.1 h
    cases h
    simp
  · cases h

/-- A character before a string that was read. -/
def consContent (c : Char) (r : List Char × List Char) : List Char × List Char := (c :: r.1, r.2)

/-- A basic string on one line. -/
def basic? (cs : List Char) : Option (List Char × List Char) :=
  match cs with
  | [] => none
  | '"' :: rest => some ([], rest)
  | '\\' :: rest =>
    match _h : escape? rest with
    | some (c, rest') => (basic? rest').map (consContent c)
    | none => none
  | c :: rest => if isPlain c then (basic? rest).map (consContent c) else none
termination_by cs.length
decreasing_by
  · have := length_lt_of_escape? _h; simp; omega
  · simp

/-- A literal string on one line. -/
def literal? : List Char → Option (List Char × List Char)
  | [] => none
  | '\'' :: rest => some ([], rest)
  | c :: rest => if isPlain c then (literal? rest).map (consContent c) else none

/-- The number of characters of the line end at the front of a text. -/
def lineEndLength : List Char → Nat
  | '\n' :: _ => 1
  | '\r' :: '\n' :: _ => 2
  | _ => 0

/-- Whether `c` is a space or a tab. -/
def isSpace (c : Char) : Bool := c == ' ' || c == '\t'

/-- The text without the blanks and line ends at its front. -/
def skipBlankLines : List Char → List Char
  | ' ' :: rest | '\t' :: rest | '\n' :: rest | '\r' :: '\n' :: rest => skipBlankLines rest
  | rest => rest

theorem length_skipBlankLines_le (cs : List Char) : (skipBlankLines cs).length ≤ cs.length := by
  fun_induction skipBlankLines cs <;> grind

/-- The text after a backslash at the end of a line, without the blanks and line ends there. -/
def afterContinuation? (cs : List Char) : Option (List Char) :=
  let rest := cs.dropWhile isSpace
  if 0 < lineEndLength rest then some (skipBlankLines rest) else none

theorem length_le_of_afterContinuation? {cs rest : List Char}
    (h : afterContinuation? cs = some rest) : rest.length ≤ cs.length := by
  simp only [afterContinuation?] at h
  split at h
  · cases h
    exact Nat.le_trans (length_skipBlankLines_le _) (List.dropWhile_sublist _).length_le
  · cases h

/-- The number of quotes at the front of a text, five at most. -/
def quoteRun (quote : Char) (cs : List Char) : Nat := ((cs.take 5).takeWhile (· == quote)).length

/-- A basic string over several lines. Of more than three closing quotes the first belong to the
content. -/
def longBasic? (cs : List Char) : Option (List Char × List Char) :=
  match cs with
  | [] => none
  | '"' :: rest =>
    let run := quoteRun '"' ('"' :: rest)
    if 3 ≤ run then some (List.replicate (run - 3) '"', rest.drop (run - 1))
    else (longBasic? rest).map (consContent '"')
  | '\\' :: rest =>
    match _h : escape? rest with
    | some (c, rest') => (longBasic? rest').map (consContent c)
    | none =>
      match _h' : afterContinuation? rest with
      | some rest' => longBasic? rest'
      | none => none
  | '\r' :: '\n' :: rest => (longBasic? rest).map (consContent '\r' ∘ consContent '\n')
  | c :: rest =>
    if isPlain c || c == '\n' then (longBasic? rest).map (consContent c) else none
termination_by cs.length
decreasing_by
  · simp
  · have := length_lt_of_escape? _h; simp; omega
  · have := length_le_of_afterContinuation? _h'; simp; omega
  · simp only [List.length_cons]; omega
  · simp

/-- A literal string over several lines. Of more than three closing quotes the first belong to the
content. -/
def longLiteral? : List Char → Option (List Char × List Char)
  | [] => none
  | '\'' :: rest =>
    let run := quoteRun '\'' ('\'' :: rest)
    if 3 ≤ run then some (List.replicate (run - 3) '\'', rest.drop (run - 1))
    else (longLiteral? rest).map (consContent '\'')
  | '\r' :: '\n' :: rest => (longLiteral? rest).map (consContent '\r' ∘ consContent '\n')
  | c :: rest =>
    if isPlain c || c == '\n' then (longLiteral? rest).map (consContent c) else none

/-- The string at the front of a text, if it is written on one line. -/
def quoted? : List Char → Option (List Char × List Char)
  | '"' :: rest => basic? rest
  | '\'' :: rest => literal? rest
  | _ => none

end SearchQuery.Toml
