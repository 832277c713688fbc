import SearchQuery.Proofs.Document.Operands
import SearchQuery.Proofs.Tree.Offers

/-!
# What a document matches

A document says which of the entries of an index match, given which of them match its leaf clauses.
One entry is looked at: the leaf clauses are true or false of it, and so is then every clause.

## Combinations

A combination matches if all clauses that have to match do and none does that must not. Clauses that
only count when they match decide nothing next to one that has to match; where there is none, one of
them has to match. This is how search engines read such combinations, and it is all that is assumed
of them here.

## Trees without signs

A tree without signs compiles to combinations in which nothing has to match by itself and nothing
must not. So it matches if one of the atoms that it offers does, however they are brought together.

## Main definitions

* `Document.Matches` — the entry of which the leaf clauses are true or false matches
* `Expr.compileAt` — the document of a tree in a field or in none
* `Expr.AtomHolds` — the clause of an atom is true

## Main results

* `Document.matches_iff` — what each clause asks for
* `Expr.matches_of_compileAt_iff` — what a neutral tree compiles to matches if an atom does
* `Expr.matches_of_compile_of_mem_operands` — what is required or excluded at the root of a tree
-/

namespace SearchQuery.Document

theorem sizeOf_lt_of_mem_clauses {clauses : List (Occur × Document)} {c : Occur × Document}
    (h : c ∈ clauses) : sizeOf c.2 < sizeOf (boolean clauses) := by
  have hmem : sizeOf c < sizeOf clauses := List.sizeOf_lt_of_mem h
  have hpair : sizeOf c.2 < sizeOf c := by
    cases c
    simp +arith
  simp only [boolean.sizeOf_spec]
  omega

theorem sizeOf_lt_of_mem_disjuncts {disjuncts : List Document} {d : Document}
    (h : d ∈ disjuncts) : sizeOf d < sizeOf (best disjuncts) := by
  have hmem : sizeOf d < sizeOf disjuncts := List.sizeOf_lt_of_mem h
  simp only [best.sizeOf_spec]
  omega

/-- The document matches, where `v` says which leaf clauses do. -/
def Matches (v : Document → Prop) : Document → Prop
  | all => True
  | empty => False
  | boolean clauses =>
    (∀ c, ∀ _ : c ∈ clauses, c.1 = .must → Matches v c.2) ∧
      (∀ c, ∀ _ : c ∈ clauses, c.1 = .mustNot → ¬ Matches v c.2) ∧
      ((∃ c ∈ clauses, c.1 = .should) → (∀ c ∈ clauses, c.1 ≠ .must) →
        ∃ c, ∃ _ : c ∈ clauses, c.1 = .should ∧ Matches v c.2)
  | best disjuncts => ∃ d, ∃ _ : d ∈ disjuncts, Matches v d
  | boost query _ => Matches v query
  | leaf => v leaf
termination_by d => sizeOf d
decreasing_by
  · exact sizeOf_lt_of_mem_clauses ‹_›
  · exact sizeOf_lt_of_mem_clauses ‹_›
  · exact sizeOf_lt_of_mem_clauses ‹_›
  · exact sizeOf_lt_of_mem_disjuncts ‹_›
  · simp +arith

variable {v : Document → Prop} {clauses : List (Occur × Document)} {disjuncts : List Document}
  {d : Document} {name value score : String} {slop : Option UInt32} {bounds : Bounds}

/-- What each clause asks for. -/
theorem matches_iff (v : Document → Prop) (d : Document) : d.Matches v ↔ match d with
    | all => True
    | empty => False
    | boolean clauses =>
      (∀ c ∈ clauses, c.1 = .must → c.2.Matches v) ∧
        (∀ c ∈ clauses, c.1 = .mustNot → ¬ c.2.Matches v) ∧
        ((∃ c ∈ clauses, c.1 = .should) → (∀ c ∈ clauses, c.1 ≠ .must) →
          ∃ c ∈ clauses, c.1 = .should ∧ c.2.Matches v)
    | best disjuncts => ∃ d ∈ disjuncts, d.Matches v
    | boost query _ => query.Matches v
    | leaf => v leaf := by
  rw [Matches.eq_def]
  cases d <;> simp only [exists_prop]

@[simp] theorem matches_freeText : (freeText value).Matches v ↔ v (freeText value) :=
  matches_iff v _

@[simp] theorem matches_term : (term name value).Matches v ↔ v (term name value) :=
  matches_iff v _

@[simp] theorem matches_phrase :
    (phrase name value slop).Matches v ↔ v (phrase name value slop) :=
  matches_iff v _

@[simp] theorem matches_regex : (regex name value).Matches v ↔ v (regex name value) :=
  matches_iff v _

@[simp] theorem matches_range : (range name bounds).Matches v ↔ v (range name bounds) :=
  matches_iff v _

@[simp] theorem matches_boost : (boost d score).Matches v ↔ d.Matches v :=
  matches_iff v _

theorem matches_best : (best disjuncts).Matches v ↔ ∃ d ∈ disjuncts, d.Matches v :=
  matches_iff v _

theorem matches_boolean : (boolean clauses).Matches v ↔
    (∀ c ∈ clauses, c.1 = .must → c.2.Matches v) ∧
      (∀ c ∈ clauses, c.1 = .mustNot → ¬ c.2.Matches v) ∧
      ((∃ c ∈ clauses, c.1 = .should) → (∀ c ∈ clauses, c.1 ≠ .must) →
        ∃ c ∈ clauses, c.1 = .should ∧ c.2.Matches v) :=
  matches_iff v _

/-- Of clauses that only count when they match, one has to match. -/
theorem matches_boolean_of_should (hne : clauses ≠ []) (h : ∀ c ∈ clauses, c.1 = .should) :
    (boolean clauses).Matches v ↔ ∃ c ∈ clauses, c.2.Matches v := by
  rw [matches_boolean]
  constructor
  · rintro ⟨-, -, hshould⟩
    obtain ⟨c, hc⟩ := List.exists_mem_of_ne_nil clauses hne
    have hmust : ∀ c ∈ clauses, c.1 ≠ .must := fun c hc => by simp [h c hc]
    obtain ⟨c, hc, -, hmatches⟩ := hshould ⟨c, hc, h c hc⟩ hmust
    exact ⟨c, hc, hmatches⟩
  · rintro ⟨c, hc, hmatches⟩
    refine ⟨fun b hb hmust => ?_, fun b hb hmustNot => ?_, fun _ _ => ⟨c, hc, h c hc, hmatches⟩⟩
    · simp [h b hb] at hmust
    · simp [h b hb] at hmustNot

end SearchQuery.Document

namespace SearchQuery.Expr

open Document

variable {v : Document → Prop} {scope : Option String} {e : Expr} {es : List Expr} {d : Document}

/-! ### Compiling in a field or in none -/

/-- The document of a tree in a field, or in none. -/
def compileAt : Option String → Expr → Except Unsupported Document
  | none => compile
  | some name => compileIn name

/-- The clause of an atom, in a field or in none, is true. -/
def AtomHolds (v : Document → Prop) (a : Option String × Expr) : Prop :=
  ∃ d, compileAt a.1 a.2 = .ok d ∧ v d

theorem compileAt_group (scope : Option String) (es : List Expr) :
    compileAt scope (group es) = do return ofClauses (← es.mapM (clause (compileAt scope))) := by
  cases scope with
  | none =>
    rw [compileAt, compile, compileOperands_eq_mapM]
  | some name =>
    rw [compileAt, compileIn, compileOperandsIn_eq_mapM]

theorem compileAt_synonyms (scope : Option String) (es : List Expr) :
    compileAt scope (synonyms es) = do return ofDisjuncts (← es.mapM (compileAt scope)) := by
  cases scope with
  | none => rw [compileAt, compile, compileAll_eq_mapM]
  | some name => rw [compileAt, compileIn, compileAllIn_eq_mapM]

theorem compileAt_boost (scope : Option String) (body : Expr) (score : Decimal) :
    compileAt scope (boost body score) = do return (← compileAt scope body).boosted score := by
  cases scope with
  | none => rfl
  | some name => rfl

/-! ### Trees without signs -/

/-- What an atom compiles to is a leaf clause. -/
theorem matches_of_isAtom_iff (he : e.IsAtom) (h : compileAt scope e = .ok d) :
    d.Matches v ↔ v d := by
  cases scope with
  | none =>
    cases e with
    | word | phrase | regex | doi | url | range | fuzzy | proximity =>
      cases h
      exact matches_freeText
    | group | synonyms | field | boost | plus | minus => cases he.1
  | some name =>
    cases e with
    | word | doi | url =>
      cases h
      exact matches_term
    | phrase =>
      cases h
      exact matches_phrase
    | regex =>
      cases h
      exact matches_regex
    | range =>
      obtain ⟨l, -, h⟩ := bind_eq_ok_iff.1 h
      obtain ⟨r, -, h⟩ := bind_eq_ok_iff.1 h
      cases h
      exact matches_range
    | proximity term =>
      cases term with
      | phrase =>
        cases h
        exact matches_phrase
      | _ => cases h
    | fuzzy => cases h
    | group | synonyms | field | boost | plus | minus => cases he.1

/-- A neutral operand has no sign. -/
theorem Neutral.occur_eq (he : e.Neutral) : e.occur = .should ∧ e.unsigned = e := by
  cases he with
  | atom h =>
    cases e with
    | plus | minus => cases h.1
    | _ => exact ⟨rfl, rfl⟩
  | node hkind =>
    cases e with
    | plus | minus => cases hkind
    | _ => exact ⟨rfl, rfl⟩

theorem matches_of_group_iff (hes : ∀ c ∈ es, c.Neutral) (hne : es ≠ [])
    (h : compileAt scope (group es) = .ok d) {Q : Expr → Prop}
    (hQ : ∀ c ∈ es, ∀ d, compileAt scope c = .ok d → (d.Matches v ↔ Q c)) :
    d.Matches v ↔ ∃ c ∈ es, Q c := by
  rw [compileAt_group] at h
  obtain ⟨clauses, hclauses, h⟩ := bind_eq_ok_iff.1 h
  have hclauses_ne : clauses ≠ [] := mapM_ne_nil hclauses hne
  have hd : d = boolean clauses := by
    cases clauses with
    | nil => exact absurd rfl hclauses_ne
    | cons => exact (Except.ok.inj h).symm
  have hshould : ∀ c ∈ clauses, c.1 = .should := by
    intro c hc
    obtain ⟨o, ho, hclause⟩ := exists_of_mem_mapM hclauses hc
    rw [← (clause_eq_ok_iff.1 hclause).1, (hes o ho).occur_eq.1]
  rw [hd, matches_boolean_of_should hclauses_ne hshould]
  refine exists_mem_mapM_iff hclauses fun o ho c hclause => hQ o ho c.2 ?_
  have hcompile := (clause_eq_ok_iff.1 hclause).2
  rwa [(hes o ho).occur_eq.2] at hcompile

theorem matches_of_synonyms_iff (hne : es ≠ []) (h : compileAt scope (synonyms es) = .ok d)
    {Q : Expr → Prop} (hQ : ∀ c ∈ es, ∀ d, compileAt scope c = .ok d → (d.Matches v ↔ Q c)) :
    d.Matches v ↔ ∃ c ∈ es, Q c := by
  rw [compileAt_synonyms] at h
  obtain ⟨disjuncts, hdisjuncts, h⟩ := bind_eq_ok_iff.1 h
  have hd : d = best disjuncts := by
    cases disjuncts with
    | nil => exact absurd rfl (mapM_ne_nil hdisjuncts hne)
    | cons => exact (Except.ok.inj h).symm
  rw [hd, matches_best]
  exact exists_mem_mapM_iff hdisjuncts hQ

/-- **What a neutral tree compiles to matches if an atom that it offers does**, and only then. -/
theorem matches_of_compileAt_iff (he : e.Neutral) (h : compileAt scope e = .ok d) :
    d.Matches v ↔ ∃ a, e.Offers scope a ∧ AtomHolds v a := by
  induction he generalizing scope d with
  | atom hatom =>
    rw [matches_of_isAtom_iff hatom h]
    simp only [offers_of_isAtom hatom, exists_eq_left, AtomHolds, h]
    exact ⟨fun hv => ⟨d, rfl, hv⟩, fun ⟨_, heq, hv⟩ => Except.ok.inj heq ▸ hv⟩
  | @node e hkind hne hchildren ih =>
    have hswap : (∃ a, e.Offers scope a ∧ AtomHolds v a) ↔
        ∃ c ∈ e.children, ∃ a, c.Offers (e.fieldName? <|> scope) a ∧ AtomHolds v a := by
      simp only [offers_of_isNeutral hkind]
      grind
    rw [hswap]
    cases e with
    | group es => exact matches_of_group_iff hchildren hne h fun c hc d hd => ih c hc hd
    | synonyms es => exact matches_of_synonyms_iff hne h fun c hc d hd => ih c hc hd
    | field name body =>
      cases scope with
      | none =>
        have hbody : compileAt (some name) body = .ok d := h
        rw [ih body List.mem_cons_self hbody]
        simp [Expr.children, fieldName?]
      | some => cases h
    | boost body score =>
      rw [compileAt_boost] at h
      obtain ⟨c, hc, h⟩ := bind_eq_ok_iff.1 h
      cases h
      rw [Document.boosted, matches_boost, ih body List.mem_cons_self hc]
      simp [Expr.children, fieldName?]
    | _ => cases hkind

/-! ### The root of a tree -/

/-- What is required or excluded at the root of a tree is a clause of the document. -/
theorem exists_clause_of_mem_operands {t o : Expr} {q : Document} (ho : o ∈ t.operands)
    (hsign : o.kind.isSign = true) (h : t.compile = .ok q) :
    ∃ clauses c, q = boolean clauses ∧ (o.occur, c) ∈ clauses ∧ o.unsigned.compile = .ok c := by
  cases t with
  | group es =>
    rw [compile, compileOperands_eq_mapM] at h
    obtain ⟨clauses, hclauses, h⟩ := bind_eq_ok_iff.1 h
    obtain ⟨c, hc, hclause⟩ := exists_mem_of_mapM hclauses ho
    obtain ⟨hoccur, hcompile⟩ := clause_eq_ok_iff.1 hclause
    refine ⟨clauses, c.2, ?_, hoccur ▸ hc, hcompile⟩
    cases clauses with
    | nil => cases hc
    | cons => exact (Except.ok.inj h).symm
  | plus e | minus e =>
    cases List.mem_singleton.1 ho
    obtain ⟨c, hc, h⟩ := bind_eq_ok_iff.1 h
    exact ⟨_, c, (Except.ok.inj h).symm, List.mem_singleton_self _, hc⟩
  | _ =>
    cases List.mem_singleton.1 ho
    cases hsign

/-- **What is required at the root of a tree matches if the document does, and what is excluded does
not match.** -/
theorem matches_of_compile_of_mem_operands {t e : Expr} {q : Document} (h : t.compile = .ok q)
    (hq : q.Matches v) :
    (plus e ∈ t.operands → ∃ d, e.compile = .ok d ∧ d.Matches v) ∧
      (minus e ∈ t.operands → ∃ d, e.compile = .ok d ∧ ¬ d.Matches v) := by
  constructor
  · intro hplus
    obtain ⟨clauses, c, rfl, hc, hcompile⟩ := exists_clause_of_mem_operands hplus rfl h
    exact ⟨c, hcompile, (matches_boolean.1 hq).1 _ hc rfl⟩
  · intro hminus
    obtain ⟨clauses, c, rfl, hc, hcompile⟩ := exists_clause_of_mem_operands hminus rfl h
    exact ⟨c, hcompile, (matches_boolean.1 hq).2.1 _ hc rfl⟩

end SearchQuery.Expr
