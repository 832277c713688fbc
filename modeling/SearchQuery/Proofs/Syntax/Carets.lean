import SearchQuery.Proofs.Syntax.Viability
import SearchQuery.Proofs.Token.Tiling

/-!
# Carets point at what is wrong

A text that is no query is shown with a caret below it. The caret stands under the token that cannot
be where it is, or behind the text if the text ends too soon.

## Bytes and columns

The place of an error is counted in bytes and the caret is moved in characters, so there is a column
only if a character of the text ends at the place. Tokens begin where one does, and places never lie
behind the text. The first column, which stands for places inside of characters, is therefore never
the column of such a place.

## Main definitions

* `SyntaxError.StandsAfter` — what stands before an error in the text

## Main results

* `Diagnostic.charsWithin?_append` — the column of a place that lies between two characters
* `exists_caret_of_parse_error` — how the error of a text is shown
-/

namespace SearchQuery

namespace Diagnostic

/-- The bytes of the first part of a text are those of as many characters as it has. -/
theorem charsWithin?_append (before after : List Char) :
    charsWithin? (byteLength before) (before ++ after) = some before.length := by
  induction before with
  | nil => cases after <;> rfl
  | cons c before ih =>
    have hpos : byteLength (c :: before) ≠ 0 := (byteLength_pos (List.cons_ne_nil c before)).ne'
    have hle : c.utf8Size ≤ byteLength (c :: before) := Nat.le_add_right _ _
    have hrest : byteLength (c :: before) - c.utf8Size = byteLength before :=
      Nat.add_sub_cancel_left _ _
    rw [List.cons_append, charsWithin?, if_neg hpos, if_pos hle, hrest, ih]
    rfl

/-- A place between two parts of a text is not behind the text. -/
theorem charsWithin?_of_append {s before after : String} (hs : s = before ++ after) :
    charsWithin? (min before.utf8ByteSize (byteLength s.toList)) s.toList =
      some before.length := by
  have hchars : s.toList = before.toList ++ after.toList := by rw [hs, String.toList_append]
  have hle : before.utf8ByteSize ≤ byteLength s.toList := by
    rw [hchars, byteLength_append, byteLength_toList]
    exact Nat.le_add_right _ _
  rw [Nat.min_eq_left hle, hchars, ← byteLength_toList, charsWithin?_append, String.length_toList]

end Diagnostic

/-- What stands in the text before the error: the part before the first token with which no query
goes on, or all of the text. -/
def SyntaxError.StandsAfter (s before : String) : SyntaxError → Prop
  | .unexpected t => (∃ used rest : List Token, tokenize s = used ++ t :: rest ∧
      Begins .expression used ∧ ¬ Begins .expression (used ++ [t])) ∧
      before.utf8ByteSize = t.position ∧ ∃ after : String, s = before ++ t.raw ++ after
  | .endOfInput => before = s

theorem exists_standsAfter {s : String} {err : SyntaxError} (h : parse s = .error err) :
    ∃ before, err.StandsAfter s before := by
  cases err with
  | unexpected t =>
    obtain ⟨used, rest, hts, hbegins, hstuck⟩ := begins_of_unexpected h
    have htiles : Tiles none 0 s.toList (tokenize s) := tiles_tokensFrom none 0 s.toList
    have ht : t ∈ tokenize s := by simp [hts]
    obtain ⟨-, before, after, hs, hposition⟩ := htiles.exists_slice ht
    refine ⟨String.ofList before, ⟨used, rest, hts, hbegins, hstuck⟩, ?_, String.ofList after, ?_⟩
    · rw [← byteLength_toList, String.toList_ofList, ← hposition, Nat.zero_add]
    · rw [← String.toList_inj, hs]
      simp
  | endOfInput => exact ⟨s, rfl⟩

/-- The place of an error is where the text before it ends. -/
theorem SyntaxError.StandsAfter.place {s before : String} {err : SyntaxError}
    (h : err.StandsAfter s before) :
    err.position?.getD (byteLength s.toList) = before.utf8ByteSize ∧
      ∃ after, s = before ++ after := by
  cases err with
  | unexpected t =>
    obtain ⟨-, hposition, after, hs⟩ := h
    exact ⟨hposition.symm, t.raw ++ after, by rw [hs, String.append_assoc]⟩
  | endOfInput =>
    cases h
    exact ⟨byteLength_toList s, "", String.append_empty.symm⟩

/-- **The caret stands under the error.** The error of a text that is no query is shown with its
message, the text and a line with the caret, which has as many characters between the margin and the
caret as the text has before the error. A character of the text ends there, so the first column does
not stand for the place of the error. -/
theorem exists_caret_of_parse_error {s : String} {err : SyntaxError} (h : parse s = .error err) :
    ∃ before : String, err.StandsAfter s before ∧
      Diagnostic.charsWithin? (min (err.position?.getD (byteLength s.toList))
        (byteLength s.toList)) s.toList = some before.length ∧
      (Diagnostic.ofSyntaxError err (some s)).text =
        "query syntax error: " ++ err.message ++ "\n" ++
          ("  " ++ s ++ "\n" ++
            String.ofList (' ' :: ' ' :: List.replicate before.length ' ' ++ ['^', '\n'])) ++
          (match (Diagnostic.ofSyntaxError err (some s)).suggestion? with
            | some hint => "hint: " ++ hint
            | none => "") := by
  obtain ⟨before, hbefore⟩ := exists_standsAfter h
  obtain ⟨hplace, after, hs⟩ := hbefore.place
  have hcolumn := Diagnostic.charsWithin?_of_append hs
  rw [← hplace] at hcolumn
  have hcaret : Diagnostic.caretLine s err.position? =
      String.ofList (' ' :: ' ' :: List.replicate before.length ' ' ++ ['^', '\n']) := by
    rw [Diagnostic.caretLine, Diagnostic.column, hcolumn, Option.getD_some]
  refine ⟨before, hbefore, hcolumn, ?_⟩
  rw [← hcaret]
  rfl

/-- The accent takes two bytes and the arrow three, and a column each. -/
theorem exists_caret_of_parse_error_arrow :
    parse "né →)" = .error (.unexpected ⟨.rparen, ")", 7⟩) ∧
      ∃ before : String,
        SyntaxError.StandsAfter "né →)" before (.unexpected ⟨.rparen, ")", 7⟩) ∧
        before.length = 4 ∧
        (Diagnostic.ofSyntaxError (.unexpected ⟨.rparen, ")", 7⟩) (some "né →)")).text =
          "query syntax error: unexpected ')'\n  né →)\n      ^\n" := by
  have hparse : parse "né →)" = .error (.unexpected ⟨.rparen, ")", 7⟩) := by with_unfolding_all rfl
  have hhint : (Diagnostic.ofSyntaxError (.unexpected ⟨.rparen, ")", 7⟩)
      (some "né →)")).suggestion? = none := by decide
  obtain ⟨before, hbefore, hcolumn, htext⟩ := exists_caret_of_parse_error hparse
  have hlength : before.length = 4 := Option.some.inj (hcolumn.symm.trans (by decide))
  refine ⟨hparse, before, hbefore, hlength, ?_⟩
  rw [htext, hlength, hhint]
  decide

end SearchQuery
