import SearchQuery.Language.StopWords

/-!
# The number of English nouns

The plural of a singular and the singular of a plural, by the endings of words. There is no list of
irregular nouns: what an ending does not tell has no form.

## Order of the rules

A longer ending is looked for before the shorter ones that it ends in, so `ies` comes before `s`,
and an ending that is found decides even if it gives no form. The singular is tried first, and a
word that has one is not made plural: `dogs` has the form `dog` only.

## Words without forms

Stop words, words of less than three letters and words with anything but the letters of ASCII have
no forms. A form is never the word itself.

## Main definitions

* `singular?`, `plural?` — the form in the other number, when the ending tells it
* `englishForms` — the other forms of a word
-/

namespace SearchQuery.Language

/-- The word without an ending. -/
def dropEnding? (ending word : List Char) : Option (List Char) :=
  if ending.isSuffixOf word then some (word.take (word.length - ending.length)) else none

/-- Whether the word has one of the endings. -/
def endsInAny (endings : List String) (word : List Char) : Bool :=
  endings.any fun ending => ending.toList.isSuffixOf word

/-- The singular of a plural. -/
def singular? (word : List Char) : Option (List Char) :=
  match dropEnding? "ies".toList word with
  | some stem => if 2 ≤ stem.length then some (stem ++ ['y']) else none
  | none =>
    if endsInAny ["sses", "ches", "shes", "xes", "zes"] word then dropEnding? "es".toList word
    else if endsInAny ["ss", "us", "is"] word then none
    else dropEnding? ['s'] word

/-- Whether the word ends in a letter that is no vowel. -/
def endsInConsonant (word : List Char) : Bool :=
  match word.getLast? with
  | some c => !"aeiou".toList.contains c
  | none => false

/-- The plural of a singular. -/
def plural? (word : List Char) : Option (List Char) :=
  if endsInAny ["is"] word then none
  else
    let regular :=
      if endsInAny ["s", "x", "z", "ch", "sh"] word then word ++ ['e', 's'] else word ++ ['s']
    match dropEnding? ['y'] word with
    | some stem => if endsInConsonant stem then some (stem ++ ['i', 'e', 's']) else some regular
    | none => some regular

/-- Whether the word, in lowercase, has forms at all. -/
def isInflected (word : List Char) : Bool :=
  3 ≤ word.length && word.all Char.isAlpha && !englishStopWords.contains (String.ofList word)

/-- The other forms of a word, in lowercase. -/
def englishForms (word : String) : List String :=
  let word := word.toList.map Char.toLower
  if isInflected word then
    (((singular? word <|> plural? word).filter (· != word)).map String.ofList).toList
  else []

end SearchQuery.Language
