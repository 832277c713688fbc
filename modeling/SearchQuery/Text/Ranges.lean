/-!
# Sets of characters given by ranges of code points

The character properties of this library are finite unions of closed ranges. A table lists the
ranges in ascending order, and `inRanges` looks a character up in it. Tables are plain lists that
are gone through from the front. That they are in order is for their readers and is not used.

## Main definitions

* `inRanges` — whether a character lies in one of the ranges of a table
* `isAscii` — whether a character is one of the first 128

## Main results

* `inRanges_eq_true_iff` — a look-up finds the characters of the ranges
-/

namespace SearchQuery.Text

/-- Whether `c` lies in one of the closed ranges of code points. -/
def inRanges (ranges : List (Nat × Nat)) (c : Char) : Bool :=
  ranges.any fun r => r.1 ≤ c.toNat && c.toNat ≤ r.2

/-- Whether `c` is one of the first 128 characters. -/
def isAscii (c : Char) : Bool := c.toNat < 128

/-- A look-up finds the characters of the ranges. -/
theorem inRanges_eq_true_iff {ranges : List (Nat × Nat)} {c : Char} :
    inRanges ranges c = true ↔ ∃ r ∈ ranges, r.1 ≤ c.toNat ∧ c.toNat ≤ r.2 := by
  simp [inRanges]

end SearchQuery.Text
