import SearchQuery.NameTable
import SearchQuery.Number.Digits
import SearchQuery.Text.Blank
import SearchQuery.Text.Case

/-!
# Word lists

A word list has a word on a line, with the number of its occurrences after it if that is not one.
What follows a hash is a comment.

## Sums

A count that is written has 64 bits, and a line with a greater one is refused. The counts of a word
that occurs on several lines, or in several files, are added as natural numbers, and a sum has as
many bits as it needs: one beyond 64 bits is neither cut nor refused here. Counts are otherwise only
compared.

## Main definitions

* `WordList.line` — what a line holds
* `WordList.parse?` — the entries of a word list, or the number of the first line that is none
* `WordList.addTo` — a dictionary with the occurrences of the entries added

## Main results

* `WordList.parse?_eq_error_iff` — a word list is refused exactly when some line is, at the first
  such line
-/

namespace SearchQuery.WordList

/-- What a line of a word list holds. -/
inductive Line where
  /-- No word. -/
  | blank
  /-- A word in lowercase and the number of its occurrences. -/
  | entry (word : String) (count : Nat)
  /-- A count that is no number below 2⁶⁴, or something after it. -/
  | invalid
  deriving DecidableEq, Repr

/-- The number of occurrences that a word of a line writes. -/
def count? (cs : List Char) : Option Nat := Number.unsigned? UInt64.size cs

/-- What a line holds. -/
def line (s : String) : Line :=
  match Text.words (Text.upTo '#' s).toList with
  | [] => .blank
  | [word] => .entry (String.ofList (Text.lowercase word)) 1
  | [word, count] =>
    match count? count with
    | some n => .entry (String.ofList (Text.lowercase word)) n
    | none => .invalid
  | _ => .invalid

/-- The entry that a line holds, if it is one. -/
def Line.entry? : Line → Option (String × Nat)
  | entry word count => some (word, count)
  | _ => none

/-- The entries of lines, or the number of the first invalid one. The first line has the number
`number`. -/
def entriesFrom (number : Nat) : List Line → Except Nat (List (String × Nat))
  | [] => .ok []
  | .invalid :: _ => .error number
  | line :: lines => (entriesFrom (number + 1) lines).map (line.entry?.toList ++ ·)

/-- The entries of a word list, or the number of the first line that is none. The first line has
the number one. -/
def parse? (text : String) : Except Nat (List (String × Nat)) :=
  entriesFrom 1 ((Text.linesOf text).map line)

/-- The dictionary with the occurrences of the entries added. A count that is written has 64 bits,
and a sum has as many as it needs. -/
def addTo (dictionary : NameTable Nat) (entries : List (String × Nat)) : NameTable Nat :=
  entries.foldl (fun table entry => table.update entry.1 fun count? => count?.getD 0 + entry.2)
    dictionary

/-- Lines are refused for the first one that is invalid, where they are counted from `number`. -/
theorem entriesFrom_eq_error_iff {number n : Nat} {lines : List Line} :
    entriesFrom number lines = .error n ↔
      ∃ earlier later, lines = earlier ++ .invalid :: later ∧ n = number + earlier.length ∧
        ∀ l ∈ earlier, l ≠ .invalid := by
  induction lines generalizing number with
  | nil => simp [entriesFrom]
  | cons l ls ih =>
    by_cases hl : l = .invalid
    · subst hl
      constructor
      · intro h
        cases h
        exact ⟨[], ls, rfl, rfl, by simp⟩
      · rintro ⟨_ | ⟨l', earlier⟩, later, heq, rfl, hearlier⟩
        · rfl
        · cases heq
          exact absurd rfl (hearlier _ List.mem_cons_self)
    · have hrest : entriesFrom number (l :: ls) = .error n ↔
          entriesFrom (number + 1) ls = .error n := by
        have hcons : entriesFrom number (l :: ls) =
            (entriesFrom (number + 1) ls).map (l.entry?.toList ++ ·) := by
          cases l <;> simp_all [entriesFrom]
        rw [hcons]
        cases entriesFrom (number + 1) ls <;> simp [Except.map]
      rw [hrest, ih]
      constructor
      · rintro ⟨earlier, later, rfl, rfl, hearlier⟩
        refine ⟨l :: earlier, later, rfl, ?_, List.forall_mem_cons.2 ⟨hl, hearlier⟩⟩
        rw [List.length_cons]
        omega
      · rintro ⟨_ | ⟨l', earlier⟩, later, heq, rfl, hearlier⟩
        · cases heq
          exact absurd rfl hl
        · cases heq
          refine ⟨earlier, later, rfl, ?_, (List.forall_mem_cons.1 hearlier).2⟩
          rw [List.length_cons]
          omega

/-- A word list is refused exactly when some line is, at the first such line. -/
theorem parse?_eq_error_iff {text : String} {n : Nat} :
    parse? text = .error n ↔
      ∃ earlier later, (Text.linesOf text).map line = earlier ++ .invalid :: later ∧
        n = 1 + earlier.length ∧ ∀ l ∈ earlier, l ≠ .invalid :=
  entriesFrom_eq_error_iff

end SearchQuery.WordList
