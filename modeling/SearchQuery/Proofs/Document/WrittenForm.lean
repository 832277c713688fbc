import SearchQuery.Document.Data

/-!
# The written form of documents

A clause is written as a table with one entry: the key names the clause, and the value is a table of
its parts. A table says nothing about the order of its entries, so a document has as many written
forms as its tables can be ordered in. All of them are read as the document.

## Main definitions

* `Document.Writes` — the value is a written form of the document

## Main results

* `Data.exists_find?_eq` — a value of a table is found under its key, wherever it stands
* `Document.Writes.ofData?_eq` — a written form is read as the document
* `Document.ofData?_toData_and_of_writes` — documents are read back, none mistaken for another
-/

namespace SearchQuery

/-! ### Values of tables -/

namespace Data

/-- The keys of a table. -/
def keys (entries : List (String × Data)) : List String := entries.map Prod.fst

variable {key : String} {value : Data} {entries usual : List (String × Data)}

/-- **A value of a table is found under its key**, if no key stands twice. -/
theorem exists_find?_eq (hnodup : (keys entries).Nodup) (h : (key, value) ∈ entries) :
    ∃ hsize, find? key entries = some ⟨value, hsize⟩ := by
  induction entries with
  | nil => cases h
  | cons entry entries ih =>
    obtain ⟨k, v⟩ := entry
    obtain ⟨hk, hnodup⟩ := List.nodup_cons.1 hnodup
    rw [find?]
    rcases List.mem_cons.1 h with heq | hmem
    · cases heq
      exact ⟨_, if_pos rfl⟩
    · obtain ⟨_, hfind⟩ := ih hnodup hmem
      have hkey : key ∈ keys entries := List.mem_map_of_mem hmem
      have hne : k ≠ key := fun heq => hk (heq ▸ hkey)
      rw [if_neg hne, hfind]
      exact ⟨_, rfl⟩

theorem find?_eq_none (h : key ∉ keys entries) : find? key entries = none := by
  induction entries with
  | nil => rfl
  | cons entry entries ih =>
    obtain ⟨k, v⟩ := entry
    obtain ⟨hk, hkeys⟩ := not_or.1 (mt List.mem_cons.2 h)
    rw [find?, if_neg (Ne.symm hk), ih hkeys]
    rfl

/-- In whatever order a table is written, a value of it is found under its key. -/
theorem exists_find?_of_perm (h : entries.Perm usual) (hnodup : (keys usual).Nodup)
    (hmem : (key, value) ∈ usual) : ∃ hsize, find? key entries = some ⟨value, hsize⟩ :=
  exists_find?_eq ((h.map Prod.fst).nodup_iff.2 hnodup) (h.mem_iff.2 hmem)

theorem find?_eq_none_of_perm (h : entries.Perm usual) (hkey : key ∉ keys usual) :
    find? key entries = none :=
  find?_eq_none fun hmem => hkey ((h.map Prod.fst).mem_iff.1 hmem)

end Data

namespace Document

open Data

/-! ### Written forms -/

/-- The value is a written form of the bounds of a range. -/
def WritesBounds (b : Bounds) (d : Data) : Prop :=
  ∃ parts, d = .table parts ∧ parts.Perm [("left", .string b.left), ("right", .string b.right),
    ("including_left", .bool b.includeLeft), ("including_right", .bool b.includeRight)]

mutual

/-- The value is a written form of the document. -/
inductive Writes : Document → Data → Prop where
  /-- Everything matches. -/
  | all : Writes all (.table [("all", .table [])])
  /-- Nothing matches. -/
  | empty : Writes empty (.table [("empty", .table [])])
  /-- A text in the usual fields. -/
  | freeText (value : String) :
      Writes (freeText value) (.table [("match", .table [("value", .string value)])])
  /-- A term in a field. -/
  | term {field value : String} {parts : List (String × Data)}
      (h : parts.Perm [("field", .string field), ("value", .string value)]) :
      Writes (term field value) (.table [("term", .table parts)])
  /-- A phrase without a distance between its words has no entry for one. -/
  | phrase {field value : String} {parts : List (String × Data)}
      (h : parts.Perm [("field", .string field), ("value", .string value)]) :
      Writes (phrase field value none) (.table [("phrase", .table parts)])
  /-- A phrase with a distance between its words. -/
  | phraseWithin {field value : String} {slop : UInt32} {parts : List (String × Data)}
      (h : parts.Perm [("field", .string field), ("value", .string value),
        ("slop", .integer slop.toNat)]) :
      Writes (phrase field value (some slop)) (.table [("phrase", .table parts)])
  /-- A regular expression in a field. -/
  | regex {field value : String} {parts : List (String × Data)}
      (h : parts.Perm [("field", .string field), ("value", .string value)]) :
      Writes (regex field value) (.table [("regex", .table parts)])
  /-- A range in a field. -/
  | range {field : String} {bounds : Bounds} {d : Data} {parts : List (String × Data)}
      (hbounds : WritesBounds bounds d) (h : parts.Perm [("field", .string field), ("value", d)]) :
      Writes (range field bounds) (.table [("range", .table parts)])
  /-- A combination of clauses. -/
  | boolean {clauses : List (Occur × Document)} {ds : List Data} (h : WritesClauses clauses ds) :
      Writes (boolean clauses) (.table [("boolean", .table [("subqueries", .array ds)])])
  /-- Clauses of which the best one counts. -/
  | best {disjuncts : List Document} {ds : List Data} (h : WritesAll disjuncts ds) :
      Writes (best disjuncts) (.table [("disjunction_max", .table [("disjuncts", .array ds)])])
  /-- A clause with its weight multiplied. -/
  | boost {query : Document} {score : String} {d : Data} {parts : List (String × Data)}
      (hquery : Writes query d) (h : parts.Perm [("query", d), ("score", .string score)]) :
      Writes (boost query score) (.table [("boost", .table parts)])

/-- The values are written forms of the documents, one by one. -/
inductive WritesAll : List Document → List Data → Prop where
  /-- There are none. -/
  | nil : WritesAll [] []
  /-- A first one and the others. -/
  | cons {q : Document} {qs : List Document} {d : Data} {ds : List Data} (head : Writes q d)
      (tail : WritesAll qs ds) : WritesAll (q :: qs) (d :: ds)

/-- The values are written forms of the clauses with their parts in a combination, one by one. -/
inductive WritesClauses : List (Occur × Document) → List Data → Prop where
  /-- There are none. -/
  | nil : WritesClauses [] []
  /-- A first one and the others. -/
  | cons {occur : Occur} {q : Document} {clauses : List (Occur × Document)} {d : Data}
      {ds : List Data} {parts : List (String × Data)} (head : Writes q d)
      (h : parts.Perm [("occur", .string occur.name), ("query", d)])
      (tail : WritesClauses clauses ds) :
      WritesClauses ((occur, q) :: clauses) (.table parts :: ds)

end

theorem writesBounds_toData (b : Bounds) : WritesBounds b b.toData := ⟨_, rfl, .refl _⟩

mutual

/-- What is written is a written form. -/
theorem writes_toData : (q : Document) → q.Writes q.toData
  | .all => by rw [toData]; exact .all
  | .empty => by rw [toData]; exact .empty
  | .freeText value => by rw [toData]; exact .freeText value
  | .term _ _ => by rw [toData]; exact .term (.refl _)
  | .phrase _ _ none => by rw [toData]; exact .phrase (.refl _)
  | .phrase _ _ (some _) => by rw [toData]; exact .phraseWithin (.refl _)
  | .regex _ _ => by rw [toData]; exact .regex (.refl _)
  | .range _ bounds => by rw [toData]; exact .range (writesBounds_toData bounds) (.refl _)
  | .boolean clauses => by rw [toData]; exact .boolean (writesClauses_clausesToData clauses)
  | .best disjuncts => by rw [toData]; exact .best (writesAll_allToData disjuncts)
  | .boost query _ => by rw [toData]; exact .boost (writes_toData query) (.refl _)

theorem writesAll_allToData : (qs : List Document) → WritesAll qs (allToData qs)
  | [] => by rw [allToData]; exact .nil
  | q :: qs => by rw [allToData]; exact .cons (writes_toData q) (writesAll_allToData qs)

theorem writesClauses_clausesToData :
    (clauses : List (Occur × Document)) → WritesClauses clauses (clausesToData clauses)
  | [] => by rw [clausesToData]; exact .nil
  | (_, q) :: clauses => by
    rw [clausesToData]
    exact .cons (writes_toData q) (.refl _) (writesClauses_clausesToData clauses)

end

/-! ### Reading -/

theorem textAt?_eq {key value : String} {parts usual : List (String × Data)}
    (h : parts.Perm usual) (hnodup : (keys usual).Nodup) (hmem : (key, .string value) ∈ usual) :
    textAt? key parts = some value := by
  obtain ⟨_, hfind⟩ := exists_find?_of_perm h hnodup hmem
  rw [textAt?, hfind]
  rfl

section FieldAndValue

variable {field value : String} {parts : List (String × Data)}

theorem textAt?_field (h : parts.Perm [("field", .string field), ("value", .string value)]) :
    textAt? "field" parts = some field :=
  textAt?_eq h (by simp [keys]) (by simp)

theorem textAt?_value (h : parts.Perm [("field", .string field), ("value", .string value)]) :
    textAt? "value" parts = some value :=
  textAt?_eq h (by simp [keys]) (by simp)

end FieldAndValue

theorem WritesBounds.ofData?_eq {b : Bounds} {d : Data} (h : WritesBounds b d) :
    Bounds.ofData? d = some b := by
  obtain ⟨parts, rfl, hperm⟩ := h
  have hnodup : (keys [("left", .string b.left), ("right", .string b.right),
    ("including_left", .bool b.includeLeft), ("including_right", .bool b.includeRight)]).Nodup := by
    simp [keys]
  have hget {key : String} {value : Data} (hmem : (key, value) ∈ [("left", Data.string b.left),
      ("right", .string b.right), ("including_left", .bool b.includeLeft),
      ("including_right", .bool b.includeRight)]) :
      (Data.table parts).get? key = some value := by
    obtain ⟨_, hfind⟩ := exists_find?_of_perm hperm hnodup hmem
    rw [get?, hfind]
    rfl
  have hleft := @hget "left" (.string b.left) (by simp)
  have hright := @hget "right" (.string b.right) (by simp)
  have hincludeLeft := @hget "including_left" (.bool b.includeLeft) (by simp)
  have hincludeRight := @hget "including_right" (.bool b.includeRight) (by simp)
  simp [Bounds.ofData?, hleft, hright, hincludeLeft, hincludeRight, string?, bool?]

theorem slopOfData?_integer (slop : UInt32) :
    slopOfData? (some (.integer slop.toNat)) = some (some slop) := by
  have hlt : (slop.toNat : Int) < UInt32.size := Int.ofNat_lt.2 slop.toNat_lt
  have hrange : (0 ≤ (slop.toNat : Int) && (slop.toNat : Int) < UInt32.size) = true := by
    simp only [Int.natCast_nonneg, hlt, decide_true, Bool.and_self]
  rw [slopOfData?, natBelow?, if_pos hrange, Option.map_some, Int.toNat_natCast,
    Nat.toUInt32_eq, UInt32.ofNat_toNat]
  nofun

mutual

/-- **A written form is read as the document.** -/
theorem Writes.ofData?_eq {q : Document} {d : Data} (h : q.Writes d) : ofData? d = some q := by
  cases h with
  | all => rw [ofData?]
  | empty => rw [ofData?]
  | freeText value => simp [ofData?, textAt?, find?, string?]
  | term h => simp [ofData?, textAt?_field h, textAt?_value h]
  | phrase h =>
    have hslop : find? "slop" _ = none := find?_eq_none_of_perm h (by simp [keys])
    simp [ofData?, textAt?_field h, textAt?_value h, hslop, slopOfData?]
  | @phraseWithin field value slop parts h =>
    have hfield : textAt? "field" parts = some field := textAt?_eq h (by simp [keys]) (by simp)
    have hvalue : textAt? "value" parts = some value := textAt?_eq h (by simp [keys]) (by simp)
    obtain ⟨_, hslop⟩ : ∃ hsize, find? "slop" parts = some ⟨.integer slop.toNat, hsize⟩ :=
      exists_find?_of_perm h (by simp [keys]) (by simp)
    simp [ofData?, hfield, hvalue, hslop, slopOfData?_integer]
  | regex h => simp [ofData?, textAt?_field h, textAt?_value h]
  | @range field bounds d parts hbounds h =>
    have hfield : textAt? "field" parts = some field := textAt?_eq h (by simp [keys]) (by simp)
    obtain ⟨_, hvalue⟩ : ∃ hsize, find? "value" parts = some ⟨d, hsize⟩ :=
      exists_find?_of_perm h (by simp [keys]) (by simp)
    simp [ofData?, hfield, hvalue, hbounds.ofData?_eq]
  | boolean h => simp [ofData?, find?, h.clausesOfData?_eq]
  | best h => simp [ofData?, find?, h.allOfData?_eq]
  | @boost query score d parts hquery h =>
    have hscore : textAt? "score" parts = some score := textAt?_eq h (by simp [keys]) (by simp)
    obtain ⟨_, hfind⟩ : ∃ hsize, find? "query" parts = some ⟨d, hsize⟩ :=
      exists_find?_of_perm h (by simp [keys]) (by simp)
    simp [ofData?, hscore, hfind, hquery.ofData?_eq]

theorem WritesAll.allOfData?_eq {qs : List Document} {ds : List Data} (h : WritesAll qs ds) :
    allOfData? ds = some qs := by
  cases h with
  | nil => rw [allOfData?]
  | cons head tail =>
    rw [allOfData?, head.ofData?_eq, tail.allOfData?_eq]
    rfl

theorem WritesClauses.clausesOfData?_eq {clauses : List (Occur × Document)} {ds : List Data}
    (h : WritesClauses clauses ds) : clausesOfData? ds = some clauses := by
  cases h with
  | nil => rw [clausesOfData?]
  | @cons occur q clauses d ds parts head h tail =>
    obtain ⟨_, hoccur⟩ : ∃ hsize, find? "occur" parts = some ⟨.string occur.name, hsize⟩ :=
      exists_find?_of_perm h (by simp [keys]) (by simp)
    obtain ⟨_, hquery⟩ : ∃ hsize, find? "query" parts = some ⟨d, hsize⟩ :=
      exists_find?_of_perm h (by simp [keys]) (by simp)
    simp [clausesOfData?, clauseOfData?, hquery, hoccur, Occur.ofData?, named?, head.ofData?_eq,
      tail.clausesOfData?_eq]

end

/-- **A document that was written is read back as it was**, in whatever order the entries of its
tables are handed over, and no value is a written form of two documents. -/
theorem ofData?_toData_and_of_writes (q : Document) :
    ofData? q.toData = some q ∧ q.Writes q.toData ∧
      ∀ d, q.Writes d → ofData? d = some q ∧ ∀ q', Writes q' d → q' = q := by
  have hwrites := writes_toData q
  refine ⟨hwrites.ofData?_eq, hwrites, fun d hd => ⟨hd.ofData?_eq, fun q' hq' => ?_⟩⟩
  exact Option.some.inj (hq'.ofData?_eq.symm.trans hd.ofData?_eq)

/-- An excluded phrase whose weight and distance are written before what they apply to. -/
theorem ofData?_toData_and_of_writes_excluded_phrase :
    Writes (boolean [(.mustNot, boost (phrase "title" "search engine" (some 2)) "3")])
        (.table [("boolean", .table [("subqueries", .array [.table [("query", .table [
          ("boost", .table [("score", .string "3"), ("query", .table [
            ("phrase", .table [("slop", .integer 2), ("field", .string "title"),
              ("value", .string "search engine")])])])]),
          ("occur", .string "must_not")]])])]) ∧
      ofData? (.table [("boolean", .table [("subqueries", .array [.table [("query", .table [
          ("boost", .table [("score", .string "3"), ("query", .table [
            ("phrase", .table [("slop", .integer 2), ("field", .string "title"),
              ("value", .string "search engine")])])])]),
          ("occur", .string "must_not")]])])]) =
        some (boolean [(.mustNot, boost (phrase "title" "search engine" (some 2)) "3")]) := by
  refine ⟨?writes, ((ofData?_toData_and_of_writes _).2.2 _ ?writes).1⟩
  have hslop := @List.perm_append_comm _ [("slop", Data.integer 2)]
    [("field", .string "title"), ("value", .string "search engine")]
  exact .boolean (.cons (.boost (.phraseWithin hslop) (.swap ..)) (.swap ..) .nil)

end Document

end SearchQuery
