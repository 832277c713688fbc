import SearchQuery.NameTable
import SearchQuery.Text.Blank

/-!
# Synonym sets

A synonym set is a list of interchangeable terms. No term belongs to two sets, so a look-up is
unambiguous.

## The index

An index has the position of the set of each term. That it has the terms of the sets and no others,
each at the position of its set, is a field of the structure: whatever has been put together, a
look-up through the index is a look-up in the sets. Disjointness need not be stated on its own,
since a term has one position.

Sets are only ever added at the end, so positions stay. A set is added if no term of it is in the
index; the first one that is, in the order of the new set, is reported with both sets.

## Main definitions

* `SynonymSets` — the sets in the order in which they were added, none of them empty, and their
  index
* `SynonymSets.push` — the sets with one more, all of whose terms are new
* `SynonymSets.add?` — the sets with one more, unless it shares a term with one of them
* `SynonymSets.ofLists?` — the sets of some lists of terms
* `SynonymSets.get?` — the set of a term
* `SynonymSets.parseList` — the lists that a text holds

## Main results

* `SynonymSets.get?_eq_some_iff` — what is looked up
* `SynonymSets.get?_eq_none_iff` — what is not
-/

namespace SearchQuery

/-- Synonym sets, in the order in which they were added, with an index of their terms. -/
structure SynonymSets where
  /-- The sets. -/
  sets : List (List String)
  /-- The position of the set of each term. -/
  index : NameTable Nat
  /-- No set is empty. -/
  ne_nil : ∀ set ∈ sets, set ≠ []
  /-- The index has the terms of the sets and no others, each at the position of its set. -/
  get?_index : ∀ term i, index.get? term = some i ↔ ∃ set, sets[i]? = some set ∧ term ∈ set

/-- Two synonym sets that share a term. -/
structure SynonymOverlap where
  /-- The first shared term of the later set. -/
  term : String
  /-- The later set. -/
  current : List String
  /-- The earlier set. -/
  previous : List String
  deriving DecidableEq, Repr

/-- The message about two synonym sets that share a term. -/
def SynonymOverlap.message (o : SynonymOverlap) : String :=
  "synonym sets [" ++ ", ".intercalate o.current ++ "] and [" ++ ", ".intercalate o.previous ++
    "] overlap on '" ++ o.term ++ "'"

namespace SynonymSets

variable {s : SynonymSets} {term : String} {set : List String}

/-- No sets. -/
def empty : SynonymSets := ⟨[], [], by simp, by simp⟩

instance : Inhabited SynonymSets := ⟨empty⟩

/-- The set that a term belongs to. -/
def get? (s : SynonymSets) (term : String) : Option (List String) :=
  (s.index.get? term).bind fun i => s.sets[i]?

/-- A look-up finds the set that has the term. -/
theorem get?_eq_some_iff : s.get? term = some set ↔ set ∈ s.sets ∧ term ∈ set := by
  rw [get?, Option.bind_eq_some_iff]
  constructor
  · rintro ⟨i, hi, hset⟩
    obtain ⟨set', hset', hterm⟩ := (s.get?_index term i).1 hi
    cases hset.symm.trans hset'
    exact ⟨List.mem_of_getElem? hset, hterm⟩
  · rintro ⟨hset, hterm⟩
    obtain ⟨i, hi⟩ := List.mem_iff_getElem?.1 hset
    exact ⟨i, (s.get?_index term i).2 ⟨set, hi, hterm⟩, hi⟩

/-- A look-up finds nothing exactly when no set has the term. -/
theorem get?_eq_none_iff : s.get? term = none ↔ ∀ set ∈ s.sets, term ∉ set := by
  rw [Option.eq_none_iff_forall_ne_some]
  exact ⟨fun h set hset hterm => h set (get?_eq_some_iff.2 ⟨hset, hterm⟩),
    fun h set hset => h set (get?_eq_some_iff.1 hset).1 (get?_eq_some_iff.1 hset).2⟩

/-- The sets before the last one keep their positions. -/
theorem getElem?_concat_eq_some_iff {sets : List (List String)} {terms : List String} {i : Nat} :
    (sets ++ [terms])[i]? = some set ↔
      sets[i]? = some set ∨ i = sets.length ∧ terms = set := by
  rcases Nat.lt_trichotomy i sets.length with hlt | rfl | hgt
  · rw [List.getElem?_append_left hlt]
    simp [Nat.ne_of_lt hlt]
  · simp
  · rw [List.getElem?_eq_none (by simp; omega), List.getElem?_eq_none (by omega)]
    simp [Nat.ne_of_gt hgt]

/-- The sets with one more. Its terms are put into the index with the position that it takes. -/
def push (s : SynonymSets) (terms : List String) (hne : terms ≠ [])
    (hnew : ∀ term ∈ terms, s.get? term = none) : SynonymSets where
  sets := s.sets ++ [terms]
  index := terms.foldl (fun index term => index.put term s.sets.length) s.index
  ne_nil set hset := by
    rcases List.mem_append.1 hset with hset | hset
    · exact s.ne_nil set hset
    · rwa [List.mem_singleton.1 hset]
  get?_index term i := by
    simp only [NameTable.get?_foldl_put, getElem?_concat_eq_some_iff]
    split
    · rename_i hterm
      have hold : ∀ set ∈ s.sets, term ∉ set := get?_eq_none_iff.1 (hnew term hterm)
      constructor
      · intro h
        cases h
        exact ⟨terms, .inr ⟨rfl, rfl⟩, hterm⟩
      · rintro ⟨set, hset | ⟨rfl, -⟩, hmem⟩
        · exact absurd hmem (hold set (List.mem_of_getElem? hset))
        · rfl
    · rename_i hterm
      rw [s.get?_index]
      constructor
      · rintro ⟨set, hset, hmem⟩
        exact ⟨set, .inl hset, hmem⟩
      · rintro ⟨set, hset | ⟨-, rfl⟩, hmem⟩
        · exact ⟨set, hset, hmem⟩
        · exact absurd hmem hterm

/-- One set. -/
def single (terms : List String) (hne : terms ≠ []) : SynonymSets :=
  empty.push terms hne fun _ _ => get?_eq_none_iff.2 (by simp [empty])

/-- The terms of a set: blanks at the ends do not count, empty terms are left out, and a repeated
term is kept once. -/
def distinctTerms (terms : List String) : List String :=
  ((terms.map Text.trimmed).filter fun t => !t.isEmpty).eraseDups

/-- The first of the terms that belongs to a set, and that set. -/
def firstShared? (s : SynonymSets) (terms : List String) : Option (String × List String) :=
  terms.findSome? fun term => (s.get? term).map fun previous => (term, previous)

theorem firstShared?_eq_none_iff {terms : List String} :
    s.firstShared? terms = none ↔ ∀ term ∈ terms, s.get? term = none := by
  simp [firstShared?]

/-- The sets with one more, of distinct terms. A set without terms is left out. -/
def addDistinct? (s : SynonymSets) (terms : List String) : Except SynonymOverlap SynonymSets :=
  if hne : terms = [] then .ok s
  else
    match hshared : s.firstShared? terms with
    | some (term, previous) => .error ⟨term, terms, previous⟩
    | none => .ok (s.push terms hne (firstShared?_eq_none_iff.1 hshared))

/-- The sets with one more. A set without terms is left out. -/
def add? (s : SynonymSets) (terms : List String) : Except SynonymOverlap SynonymSets :=
  s.addDistinct? (distinctTerms terms)

/-- The sets of the lists of terms, in order. -/
def ofLists? (lists : List (List String)) : Except SynonymOverlap SynonymSets :=
  lists.foldlM add? empty

/-- The lists that a text holds: one on a line, with commas between the terms. What follows a hash
is a comment. -/
def parseList (text : String) : List (List String) :=
  (((Text.linesOf text).map (Text.upTo '#')).filter fun line =>
    !(Text.trimmed line).isEmpty).map fun line => (Text.piecesAt ',' line).map Text.trimmed

end SynonymSets

end SearchQuery
