import SearchQuery.Text.Casing

/-!
# Lowercasing

The full Unicode lowercase mapping. It looks at single characters with one exception: a capital
sigma at the end of a word becomes the final form of the letter.

So lowercasing does not work character by character, and the lowercase of a text put before another
one may differ from what it is alone. `lowercaseAfter` carries the characters before along, and the
letters that matter may be any number of skipped characters away on either side. Everything else has
one lowercase character, except the capital I with a dot, which has two.

## Main definitions

* `lowerChar` — the lowercase of one character, without regard to its neighbours
* `lowercase` — the lowercase of a text
* `lower` — the same on strings
-/

namespace SearchQuery.Text

/-- The lowercase of a single character. The capital I with a dot above is the only character
whose lowercase has two. -/
def lowerChar (c : Char) : List Char :=
  if isAscii c then [c.toLower]
  else if c = '\u0130' then ['i', '\u0307']
  else match lowercaseRuns.findSome? (·.lower? c.toNat) with
    | some n => [Char.ofNat n]
    | none => [c]

/-- Whether the first character that is not skipped is a cased letter. -/
def facesCased (cs : List Char) : Bool :=
  match cs.dropWhile isCaseIgnorable with
  | [] => false
  | c :: _ => isCased c

/-- The lowercase of a text that follows the characters `before`, nearest first. A capital sigma
is final if a cased letter precedes it and none follows. -/
def lowercaseAfter (before : List Char) : List Char → List Char
  | [] => []
  | c :: cs =>
    let image :=
      if c = 'Σ' then [if facesCased before && !facesCased cs then 'ς' else 'σ'] else lowerChar c
    image ++ lowercaseAfter (c :: before) cs

/-- The lowercase of a text. -/
def lowercase (cs : List Char) : List Char := lowercaseAfter [] cs

/-- The lowercase of a text. -/
def lower (s : String) : String := String.ofList (lowercase s.toList)

/-- Whether the two texts have the same lowercase. -/
def sameLower (a b : String) : Bool := lower a == lower b

@[simp] theorem lowercase_nil : lowercase [] = [] := rfl

end SearchQuery.Text
