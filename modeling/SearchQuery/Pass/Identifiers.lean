import SearchQuery.Pass.Basic
import SearchQuery.Context
import SearchQuery.Token.Identifier

/-!
# Searching for identifiers in their field

An identifier that stands on its own, or an address that holds one, becomes a search in the field
of identifiers and is noted. A word that is the beginning of an identifier with an asterisk becomes
a required search for a regular expression.

## What stands on its own

A node stands on its own at the root or directly in a group. Only the nearest node around it counts,
so an identifier in a group is replaced whatever the group stands in. What a field or an operator
applies to directly is left alone, except that a beginning with an asterisk is searched for below a
sign, which then takes the place of the requirement.

## Patterns

The beginning is searched for as it is written. Every character of it that means something in a
regular expression gets a backslash, and the pattern ends in any text.

## Main definitions

* `isFree` — whether a node stands at the root or directly in a group
* `escapePattern` — a text as a regular expression
* `IdentifierSettings.search` — the search for an identifier
* `Pass.identifiers` — the pass

## Main results

* `IdentifierSettings.transform_cases` — what becomes of a node
-/

namespace SearchQuery

/-- Whether a node with these nodes around it stands at the root or directly in a group. -/
def isFree (parents : List Kind) : Bool :=
  match parents.getLast? with
  | none => true
  | some kind => kind == .group

/-- The characters that mean something in a regular expression. -/
def isPatternChar (c : Char) : Bool :=
  ['\\', '.', '+', '*', '?', '(', ')', '|', '[', ']', '\x7b', '\x7d', '^', '$', '#', '&', '-',
    '~'].contains c

/-- The regular expression that matches a text and nothing else. -/
def escapePattern (cs : List Char) : List Char :=
  cs.flatMap fun c => if isPatternChar c then ['\\', c] else [c]

namespace IdentifierSettings

/-- The search for an identifier. -/
def search (s : IdentifierSettings) (doi : String) : Expr :=
  (Expr.field s.field (.doi doi)).boosted s.score

/-- The search for all identifiers with a beginning. -/
def patternSearch (s : IdentifierSettings) (beginning : List Char) : Expr :=
  .field s.field (.regex (String.ofList (escapePattern beginning ++ ['.', '*'])))

/-- What a search for all identifiers with a beginning becomes where it stands: a requirement if
it stands on its own, itself below a sign. -/
def placePattern? (search : Expr) (parents : List Kind) : Option Expr :=
  match parents.getLast? with
  | none | some .group => some (.plus search)
  | some .plus | some .minus => some search
  | some _ => none

/-- The search that a word with an asterisk becomes. -/
def wildcard? (s : IdentifierSettings) (word : String) (parents : List Kind) : Option Expr :=
  if s.wildcard then
    (Doi.pattern? (Text.lowercase word.toList)).bind fun beginning =>
      placePattern? (s.patternSearch beginning) parents
  else none

/-- A word with an asterisk becomes the search for the beginning that it writes, required or not. -/
theorem exists_of_wildcard? {s : IdentifierSettings} {word : String} {parents : List Kind}
    {d : Expr} (h : s.wildcard? word parents = some d) :
    ∃ beginning, Doi.pattern? (Text.lowercase word.toList) = some beginning ∧
      (d = s.patternSearch beginning ∨ d = .plus (s.patternSearch beginning)) := by
  rw [wildcard?] at h
  split at h
  · obtain ⟨beginning, hbeginning, hplace⟩ := Option.bind_eq_some_iff.1 h
    refine ⟨beginning, hbeginning, ?_⟩
    rw [placePattern?] at hplace
    split at hplace <;> cases hplace
    · exact .inr rfl
    · exact .inr rfl
    · exact .inl rfl
    · exact .inl rfl
  · cases h

/-- The identifier that a node stands for. -/
def identifier? : Expr → Option String
  | .doi doi => some doi
  | .url url => Doi.find? url
  | _ => none

/-- A free identifier is searched for and noted; a word with an asterisk is searched for. -/
def transform (s : IdentifierSettings) : Transform Context := fun e parents c =>
  match identifier? e with
  | some doi =>
    if isFree parents then (.final (s.search doi), { c with dois := c.dois ++ [doi] })
    else (.keep e, c)
  | none =>
    match e with
    | .word value =>
      match s.wildcard? value parents with
      | some search => (.final search, c)
      | none => (.keep e, c)
    | e => (.keep e, c)

/-- What becomes of a node. -/
theorem transform_cases (s : IdentifierSettings) (e : Expr) (parents : List Kind) (c : Context) :
    (∃ doi, identifier? e = some doi ∧ isFree parents = true ∧
      s.transform e parents c = (.final (s.search doi), { c with dois := c.dois ++ [doi] })) ∨
    (∃ value search, e = .word value ∧ s.wildcard? value parents = some search ∧
      s.transform e parents c = (.final search, c)) ∨
    (isFree parents = true → identifier? e = none) ∧
      (∀ value, e = .word value → s.wildcard? value parents = none) ∧
      s.transform e parents c = (.keep e, c) := by
  cases hdoi : identifier? e with
  | some doi =>
    have hword (value : String) : e ≠ .word value := fun h => by rw [h] at hdoi; cases hdoi
    cases hfree : isFree parents with
    | true => exact .inl ⟨doi, rfl, rfl, by simp [transform, hdoi, hfree]⟩
    | false =>
      refine .inr (.inr ⟨Bool.noConfusion, fun value h => absurd h (hword value), ?_⟩)
      simp [transform, hdoi, hfree]
  | none =>
    cases e with
    | word value =>
      cases hsearch : s.wildcard? value parents with
      | some search =>
        exact .inr (.inl ⟨value, search, rfl, hsearch, by simp [transform, hdoi, hsearch]⟩)
      | none =>
        refine .inr (.inr ⟨fun _ => rfl, by rintro _ ⟨⟩; exact hsearch, ?_⟩)
        simp [transform, hdoi, hsearch]
    | _ => exact .inr (.inr ⟨fun _ => rfl, by rintro _ ⟨⟩, by simp [transform, hdoi]⟩)

theorem transform_descends (s : IdentifierSettings) : s.transform.Descends fun _ e => e.weight :=
  Transform.descends_of_keep_self fun e parents c e' h => by
    obtain ⟨doi, -, -, hstep⟩ | ⟨value, search, -, -, hstep⟩ | ⟨-, -, hstep⟩ :=
      s.transform_cases e parents c <;> rw [hstep] at h
    · cases h
    · cases h
    · exact (Outcome.keep.inj h).symm

end IdentifierSettings

/-- The pass that searches for identifiers in their field. -/
def Pass.identifiers (s : IdentifierSettings) : Pass Context :=
  .ofTransform .parentsFirst s.transform s.transform_descends

end SearchQuery
