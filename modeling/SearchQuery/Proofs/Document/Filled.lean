import SearchQuery.Proofs.Document.Operands
import SearchQuery.Proofs.Pass.Filled

/-!
# Documents that match neither everything nor nothing

A document is filled when nothing in it matches everything or nothing by itself: it has no such
clause, no combination without clauses and no choice without alternatives, at any depth. What a
query compiles to is filled unless nothing is left of the query.

## From empty groups to matching everything

A group without operands would compile to the document that matches everything, and so would a
group without alternatives. A filled tree has neither, so the two cases of `Document.ofClauses`
and `Document.ofDisjuncts` that make such a document are never reached from a query.

## Main definitions

* `Document.All` — every clause of a document has a property
* `Document.HasContent` — the clause is neither everything nor nothing nor an empty combination
* `Document.Filled` — no clause of the document is one of these
* `Document.FilledIn` — the document is filled, and the fields that it searches in have names with
  a property

## Main results

* `Expr.filledIn_of_compile` — a filled tree compiles to a filled document, which searches in no
  field that the tree does not search in
* `Processor.filled_of_processWith` — what becomes of a query is filled, and only a query without a
  tree matches everything or nothing
-/

namespace SearchQuery

namespace Document

variable {P : Document → Prop}

/-- The clauses directly below a clause. -/
def parts : Document → List Document
  | boolean clauses => clauses.map Prod.snd
  | best disjuncts => disjuncts
  | boost query _ => [query]
  | _ => []

/-- Every clause of the document has the property. -/
inductive All (P : Document → Prop) : Document → Prop where
  /-- The root has it, and so have the clauses below. -/
  | intro {d : Document} (root : P d) (below : ∀ c ∈ d.parts, All P c) : All P d

theorem all_iff {d : Document} : d.All P ↔ P d ∧ ∀ c ∈ d.parts, c.All P :=
  ⟨fun ⟨root, below⟩ => ⟨root, below⟩, fun ⟨root, below⟩ => ⟨root, below⟩⟩

/-- The clause is neither everything nor nothing nor a combination of no clauses. -/
def HasContent : Document → Prop
  | all | empty => False
  | boolean clauses => clauses ≠ []
  | best disjuncts => disjuncts ≠ []
  | _ => True

/-- The field that a clause searches in, if it is one of the usual four. -/
def fieldName? : Document → Option String
  | term name _ | phrase name _ _ | regex name _ | range name _ => some name
  | _ => none

theorem All.imp {Q : Document → Prop} {d : Document} (hPQ : ∀ d, P d → Q d) (h : d.All P) :
    d.All Q := by
  induction h with
  | intro root _ ih => exact ⟨hPQ _ root, ih⟩

/-- No clause of the document is everything or nothing or a combination of no clauses. -/
def Filled (d : Document) : Prop := d.All HasContent

/-- The document is filled, and every field that it searches in has one of the names. -/
def FilledIn (names : String → Prop) (d : Document) : Prop :=
  d.All fun c => c.HasContent ∧ ∀ name, c.fieldName? = some name → names name

theorem FilledIn.filled {names : String → Prop} {d : Document} (h : d.FilledIn names) :
    d.Filled :=
  h.imp fun _ hc => hc.1

section Constructors

variable {names : String → Prop} {name value score : String} {slop : Option UInt32}
  {bounds : Bounds} {d : Document} {cs : List (Occur × Document)} {ds : List Document}

/-- A clause without parts is filled if it searches in no field, or in one of the names. -/
theorem filledIn_of_parts_eq_nil (hparts : d.parts = []) (hcontent : d.HasContent)
    (hname : ∀ name, d.fieldName? = some name → names name) : d.FilledIn names :=
  ⟨⟨hcontent, hname⟩, fun c hc => by simp [hparts] at hc⟩

@[simp] theorem filledIn_freeText : (freeText value).FilledIn names :=
  filledIn_of_parts_eq_nil rfl trivial fun _ h => by cases h

theorem filledIn_term (h : names name) : (term name value).FilledIn names :=
  filledIn_of_parts_eq_nil rfl trivial fun _ hname => Option.some.inj hname ▸ h

theorem filledIn_phrase (h : names name) : (phrase name value slop).FilledIn names :=
  filledIn_of_parts_eq_nil rfl trivial fun _ hname => Option.some.inj hname ▸ h

theorem filledIn_regex (h : names name) : (regex name value).FilledIn names :=
  filledIn_of_parts_eq_nil rfl trivial fun _ hname => Option.some.inj hname ▸ h

theorem filledIn_range (h : names name) : (range name bounds).FilledIn names :=
  filledIn_of_parts_eq_nil rfl trivial fun _ hname => Option.some.inj hname ▸ h

theorem filledIn_boolean (hne : cs ≠ []) (h : ∀ c ∈ cs, c.2.FilledIn names) :
    (boolean cs).FilledIn names := by
  refine ⟨⟨hne, fun name hname => by cases hname⟩, fun d hd => ?_⟩
  obtain ⟨c, hc, rfl⟩ := List.mem_map.1 hd
  exact h c hc

theorem filledIn_best (hne : ds ≠ []) (h : ∀ d ∈ ds, d.FilledIn names) :
    (best ds).FilledIn names :=
  ⟨⟨hne, fun name hname => by cases hname⟩, h⟩

theorem filledIn_boost (h : d.FilledIn names) : (boost d score).FilledIn names := by
  refine ⟨⟨trivial, fun name hname => by cases hname⟩, fun c hc => ?_⟩
  rw [List.mem_singleton.1 hc]
  exact h

theorem filledIn_ofClauses (hne : cs ≠ []) (h : ∀ c ∈ cs, c.2.FilledIn names) :
    (ofClauses cs).FilledIn names := by
  cases cs with
  | nil => exact absurd rfl hne
  | cons c cs => exact filledIn_boolean hne h

theorem filledIn_ofDisjuncts (hne : ds ≠ []) (h : ∀ d ∈ ds, d.FilledIn names) :
    (ofDisjuncts ds).FilledIn names := by
  cases ds with
  | nil => exact absurd rfl hne
  | cons d ds => exact filledIn_best hne h

end Constructors

end Document

open Document

namespace Expr

variable {f : Expr → Except Unsupported Document} {e : Expr} {es : List Expr} {d : Document}
  {names : String → Prop}

theorem FilledIn.unsigned (h : e.FilledIn names) : e.unsigned.FilledIn names := by
  cases e with
  | plus inner => exact filledIn_plus.1 h
  | minus inner => exact filledIn_minus.1 h
  | _ => exact h

/-! ### Combinations -/

/-- The clauses of a group are those of smaller trees, some of them operands without their signs. -/
theorem filledIn_of_operands (he : (group es).FilledIn names)
    (hf : ∀ o, sizeOf o < sizeOf (group es) → o.FilledIn names →
      ∀ d, f o = .ok d → d.FilledIn names)
    (h : (do return ofClauses (← es.mapM (clause f))) = Except.ok d) : d.FilledIn names := by
  obtain ⟨hne, hes⟩ := filledIn_group.1 he
  obtain ⟨clauses, hclauses, h⟩ := bind_eq_ok_iff.1 h
  cases h
  refine filledIn_ofClauses (mapM_ne_nil hclauses hne) fun c hc => ?_
  obtain ⟨o, ho, hclause⟩ := exists_of_mem_mapM hclauses hc
  have hsize : sizeOf o < sizeOf (group es) := sizeOf_lt_of_mem_children ho
  exact hf o.unsigned (Nat.lt_of_le_of_lt o.sizeOf_unsigned_le hsize) (hes o ho).unsigned c.2
    (clause_eq_ok_iff.1 hclause).2

theorem filledIn_of_alternatives (he : (synonyms es).FilledIn names)
    (hf : ∀ a, sizeOf a < sizeOf (synonyms es) → a.FilledIn names →
      ∀ d, f a = .ok d → d.FilledIn names)
    (h : (do return ofDisjuncts (← es.mapM f)) = Except.ok d) : d.FilledIn names := by
  obtain ⟨hne, hes⟩ := filledIn_synonyms.1 he
  obtain ⟨disjuncts, hdisjuncts, h⟩ := bind_eq_ok_iff.1 h
  cases h
  refine filledIn_ofDisjuncts (mapM_ne_nil hdisjuncts hne) fun c hc => ?_
  obtain ⟨a, ha, hc⟩ := exists_of_mem_mapM hdisjuncts hc
  exact hf a (sizeOf_lt_of_mem_children (e := synonyms es) ha) (hes a ha) c hc

theorem filledIn_of_sign {occur : Occur} (hf : ∀ d, f e = .ok d → d.FilledIn names)
    (h : (do return boolean [(occur, ← f e)]) = Except.ok d) : d.FilledIn names := by
  obtain ⟨c, hc, h⟩ := bind_eq_ok_iff.1 h
  cases h
  refine filledIn_boolean (List.cons_ne_nil _ _) fun b hb => ?_
  rw [List.mem_singleton.1 hb]
  exact hf c hc

theorem filledIn_of_boost {score : Decimal} (hf : ∀ d, f e = .ok d → d.FilledIn names)
    (h : (do return (← f e).boosted score) = Except.ok d) : d.FilledIn names := by
  obtain ⟨c, hc, h⟩ := bind_eq_ok_iff.1 h
  cases h
  exact Document.filledIn_boost (hf c hc)

/-! ### Compiling -/

/-- In a field, a filled tree compiles to a filled document that searches in that field. The body
of a search in a field has no such search in it, or it does not compile. -/
theorem filledIn_of_compileIn {name : String} {e : Expr} {d : Document} (hname : names name)
    (he : e.FilledIn names) (h : compileIn name e = .ok d) : d.FilledIn names := by
  cases e with
  | word | doi | url =>
    cases h
    exact filledIn_term hname
  | phrase =>
    cases h
    exact Document.filledIn_phrase hname
  | regex =>
    cases h
    exact Document.filledIn_regex hname
  | group operands =>
    rw [compileIn, compileOperandsIn_eq_mapM] at h
    exact filledIn_of_operands he (fun o hsize ho d hd => filledIn_of_compileIn hname ho hd) h
  | synonyms alternatives =>
    rw [compileIn, compileAllIn_eq_mapM] at h
    exact filledIn_of_alternatives he (fun a hsize ha d hd => filledIn_of_compileIn hname ha hd) h
  | boost body score =>
    exact filledIn_of_boost (fun d hd => filledIn_of_compileIn hname (filledIn_boost.1 he) hd) h
  | plus inner =>
    exact filledIn_of_sign (fun d hd => filledIn_of_compileIn hname (filledIn_plus.1 he) hd) h
  | minus inner =>
    exact filledIn_of_sign (fun d hd => filledIn_of_compileIn hname (filledIn_minus.1 he) hd) h
  | range left right il ir =>
    obtain ⟨l, -, h⟩ := bind_eq_ok_iff.1 h
    obtain ⟨r, -, h⟩ := bind_eq_ok_iff.1 h
    cases h
    exact Document.filledIn_range hname
  | proximity term slop =>
    cases term with
    | phrase =>
      cases h
      exact Document.filledIn_phrase hname
    | _ => cases h
  | field | fuzzy => cases h
termination_by sizeOf e

/-- **A filled tree compiles to a filled document, and a document searches in no field that the
tree does not search in.** -/
theorem filledIn_of_compile {e : Expr} {d : Document} (he : e.FilledIn names)
    (h : compile e = .ok d) : d.FilledIn names := by
  cases e with
  | group operands =>
    rw [compile, compileOperands_eq_mapM] at h
    exact filledIn_of_operands he (fun o hsize ho d hd => filledIn_of_compile ho hd) h
  | synonyms alternatives =>
    rw [compile, compileAll_eq_mapM] at h
    exact filledIn_of_alternatives he (fun a hsize ha d hd => filledIn_of_compile ha hd) h
  | field name body =>
    obtain ⟨hname, hbody⟩ := filledIn_field.1 he
    exact filledIn_of_compileIn hname hbody h
  | boost body score =>
    exact filledIn_of_boost (fun d hd => filledIn_of_compile (filledIn_boost.1 he) hd) h
  | plus inner =>
    exact filledIn_of_sign (fun d hd => filledIn_of_compile (filledIn_plus.1 he) hd) h
  | minus inner =>
    exact filledIn_of_sign (fun d hd => filledIn_of_compile (filledIn_minus.1 he) hd) h
  | word | phrase | regex | doi | url | range | fuzzy | proximity =>
    cases h
    exact filledIn_freeText
termination_by sizeOf e

/-- A filled tree compiles to a filled document, whatever fields there are. -/
theorem filled_of_compile {e : Expr} {d : Document} (he : e.Filled) (h : compile e = .ok d) :
    d.Filled :=
  (filledIn_of_compile he.filledIn h).filled

end Expr

/-! ### Queries -/

/-- Settings under which trees are shaped and simplified, and texts are read as they are. -/
def Settings.shaping : Settings :=
  { stages := { text := [], tree := [.backendShape, .simplification] } }

/-- **No query is widened.** Whatever stages the settings ask for, in whatever order, and whatever
the engines do, the tree that is left of a query has no group without operands or alternatives, what
it compiles to has no clause that matches everything or nothing by itself, and such a clause is the
whole document of a query of which nothing is left. -/
theorem Processor.filled_of_processWith (s : Settings) (engines : Engines)
    (query hint : Option String) (languages : List (String × Number.Floating))
    {processed : Processed}
    (h : (ofSettingsWith s engines).processWith query hint languages = .ok processed) :
    (∀ e, processed.tree = some e → e.Filled) ∧
      (∀ e d, processed.tree = some e → processed.document = .ok d → d.Filled) ∧
      (∀ d, processed.document = .ok d → ¬ d.Filled →
        processed.tree = none ∧ d = processed.context.blankQuery) := by
  have htree : ∀ e, processed.tree = some e → e.Filled := fun e he =>
    tree_of_processWith (fun _ _ hd => hd.filled) (s.passes_preserve_filled engines) h he
  refine ⟨htree, fun e d he hd => ?_, fun d hd hempty => ?_⟩
  · rw [Processed.document, he] at hd
    exact Expr.filled_of_compile (htree e he) hd
  · rw [Processed.document] at hd
    split at hd
    · rename_i e he
      exact absurd (Expr.filled_of_compile (htree e he) hd) hempty
    · rename_i hnone
      cases hd
      exact ⟨hnone, rfl⟩

/-- A requirement of two phrases without words is dropped with them, and the query matches what its
other word matches. A query of one such phrase matches everything, as the settings have it. -/
theorem Processor.filled_of_processWith_blank_phrases :
    (∃ processed, (ofSettingsWith .shaping {}).processWith (some "+(\"\" \"\") black") none [] =
        .ok processed ∧ (Expr.group [.word "black"]).Filled ∧
        processed.tree = some (.group [.word "black"]) ∧
        processed.document = .ok (.boolean [(.should, .freeText "black")]) ∧
        (Document.boolean [(.should, .freeText "black")]).Filled) ∧
      ∃ processed, (ofSettingsWith .shaping {}).processWith (some "\"\"") none [] =
        .ok processed ∧ processed.document = .ok .all ∧ ¬ Document.all.Filled ∧
        processed.tree = none ∧ Document.all = processed.context.blankQuery := by
  constructor
  · have hparse : parse "+(\"\" \"\") black" =
        .ok (some (.group [.plus (.group [.phrase "", .phrase ""]), .word "black"])) := by
      with_unfolding_all rfl
    have hpasses (c : Context) : runPasses (Settings.shaping.passes {})
        (some (.group [.plus (.group [.phrase "", .phrase ""]), .word "black"])) c =
          (some (.group [.word "black"]), c) := by with_unfolding_all rfl
    have hrun := (ofSettingsWith .shaping {}).processWith_of_parse none [] (by decide) hparse
      (hpasses _)
    have hfilled := filled_of_processWith .shaping {} _ none [] hrun
    exact ⟨_, hrun, hfilled.1 _ rfl, rfl, rfl, hfilled.2.1 _ _ rfl rfl⟩
  · have hparse : parse "\"\"" = .ok (some (.phrase "")) := by with_unfolding_all rfl
    have hpasses (c : Context) : runPasses (Settings.shaping.passes {}) (some (.phrase "")) c =
        (none, c) := by with_unfolding_all rfl
    have hrun := (ofSettingsWith .shaping {}).processWith_of_parse none [] (by decide) hparse
      (hpasses _)
    have hall : ¬ Document.all.Filled := fun h => (Document.all_iff.1 h).1
    exact ⟨_, hrun, rfl, hall, (filled_of_processWith .shaping {} _ none [] hrun).2.2 _ rfl hall⟩

end SearchQuery
