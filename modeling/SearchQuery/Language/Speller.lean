import SearchQuery.Language.Edits
import SearchQuery.NameTable
import SearchQuery.Number.Digits
import SearchQuery.Text.Alphabetic
import SearchQuery.Text.Case

/-!
# Correcting words by a dictionary

A word that the dictionary does not know is corrected to the most frequent word at one edit, or
else at two edits. Of equally frequent words the first in the order of code points is taken.

The words of a dictionary stand in that order, so the best one is found by a single look at them
from left to right that changes its mind only for a word that is more frequent. A word at two edits
is looked for only if there is none at one, however frequent it is. Each word of the dictionary is
compared with the relation of edits itself; no automaton or index stands between.

Words of more than 32 characters and words with anything but letters are left alone.

## Main definitions

* `Speller` — the words of a dictionary with their frequencies
* `Speller.ofEntries` — the dictionary of some words in any case
* `Speller.correct?` — the correction of a word
-/

namespace SearchQuery.Language

/-- The words of a dictionary, in lowercase, with their frequencies. -/
structure Speller where
  /-- The words. -/
  words : NameTable Nat

namespace Speller

/-- The dictionary of the words, whatever their case. A repeated word has the highest of its
frequencies. -/
def ofEntries (entries : List (String × Nat)) : Speller :=
  ⟨entries.foldl
    (fun table entry =>
      table.update (Text.lower entry.1) fun count? => max (count?.getD 0) entry.2) []⟩

/-- Whether the dictionary has no words. -/
def isEmpty (s : Speller) : Bool := s.words.isEmpty

/-- The number of words. -/
def size (s : Speller) : Nat := s.words.length

/-- The more frequent of two entries, the first one if they are equally frequent. -/
def better (best? : Option (String × Nat)) (entry : String × Nat) : Option (String × Nat) :=
  match best? with
  | some best => if best.2 < entry.2 then some entry else some best
  | none => some entry

/-- The most frequent word within so many edits, the first one of equally frequent words. -/
def bestWithin? (s : Speller) (edits : Nat) (word : List Char) : Option String :=
  let near := s.words.filter fun entry => withinEdits edits word entry.1.toList
  (near.foldl better none).map (·.1)

/-- The number of characters of the longest word that is corrected. -/
def maxLength : Nat := 32

/-- The correction of a word. Long words, words with anything but letters and known words have
none. -/
def correct? (s : Speller) (word : String) : Option String :=
  let word := Text.lowercase word.toList
  if maxLength < word.length || !word.all Text.isAlphabetic
      || (s.words.get? (String.ofList word)).isSome then none
  else s.bestWithin? 1 word <|> s.bestWithin? 2 word

/-- What a developer sees of a dictionary. -/
def summary (s : Speller) : String :=
  "DictionarySpellChecker \x7b words: " ++ Number.numeral s.size ++ ", .. \x7d"

end Speller

end SearchQuery.Language
