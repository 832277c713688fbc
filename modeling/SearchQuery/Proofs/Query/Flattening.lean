import SearchQuery.Proofs.Document.Distribution
import SearchQuery.Proofs.Document.Splicing
import SearchQuery.Proofs.Pass.Conservation
import SearchQuery.Proofs.Pass.Finishing

/-!
# Groups in groups

A group directly in a group gives its operands to it, whatever their signs are. A sign says what
part its operand takes in the innermost combination around it, so it says something about more
clauses once that combination is larger.

## Signs that stay where they are

Nothing is lifted if no operand without a sign of its own shows one: neither is it a group with a
signed operand, nor a group in which one shows, nor one of these under a boost by one, which goes as
well. Then a group brings only clauses that count when they match, and of these it makes no
difference how they are brought together. And it does no harm to lift signs out of the only operand
that is not excluded, since excluded clauses must not match anyway.

Ranges, fuzzy words and searches with a distance are printed outside of fields, whatever they hold,
so what they hold has to stay as it is. What is read from a query has only terms there.

## Main definitions

* `Expr.ShowsSign` — a sign is among the operands that the tree has as part of a group
* `Expr.SignsStay` — no sign gets more clauses beside it

## Main results

* `Expr.exists_compileAt_simplified` — the document of a tree without what has no effect, in a field
  or in none
* `exists_compile_of_run_simplification` — the document of a tree after the pass
* `not_matches_iff_of_lifted_sign` — a group in a group with a requirement in it
-/

namespace SearchQuery

open SearchQuery.Expr

namespace Expr

open Document

variable {scope : Option String} {v : Document → Prop} {e e' : Expr} {es : List Expr}
  {q : Document}

/-! ### Signs that are lifted -/

/-- The tree is signed, or a sign shows in it once it is part of a group. -/
inductive ShowsSign : Expr → Prop where
  /-- A requirement. -/
  | plus (inner : Expr) : ShowsSign (plus inner)
  /-- An exclusion. -/
  | minus (inner : Expr) : ShowsSign (minus inner)
  /-- A group gives its operands away. -/
  | group {es : List Expr} {e : Expr} (he : e ∈ es) (h : ShowsSign e) : ShowsSign (group es)
  /-- A boost by one goes. -/
  | boost {body : Expr} {score : Decimal} (hscore : score.sameSize .one = true)
      (h : ShowsSign body) : ShowsSign (boost body score)

/-- No sign gets more clauses beside it when groups in groups and boosts by one go. -/
inductive SignsStay : Expr → Prop where
  /-- Nothing goes. -/
  | unchanged {e : Expr} (h : e.simplified = some e) : SignsStay e
  /-- A search in a field. -/
  | field {name : String} {body : Expr} (h : SignsStay body) : SignsStay (field name body)
  /-- Alternatives. -/
  | synonyms {es : List Expr} (h : ∀ e ∈ es, SignsStay e) : SignsStay (synonyms es)
  /-- A boost. -/
  | boost {body : Expr} {score : Decimal} (h : SignsStay body) : SignsStay (boost body score)
  /-- A requirement. -/
  | plus {inner : Expr} (h : SignsStay inner) : SignsStay (plus inner)
  /-- An exclusion. -/
  | minus {inner : Expr} (h : SignsStay inner) : SignsStay (minus inner)
  /-- A group in which only the signs of the operands show. Next to a requirement, operands without
  a sign do not count. -/
  | group {es : List Expr} (hsigns : ∀ e ∈ es, e.ShowsSign → e.kind.isSign = true)
      (h : ∀ e ∈ es, (e.kind.isSign = true ∨ ∀ d ∈ es, d.kind ≠ .plus) → SignsStay e) :
      SignsStay (group es)
  /-- A group with one operand that is not excluded. -/
  | alone {es fs : List Expr} {e : Expr} (hminus : ∀ d ∈ es ++ fs, d.kind = .minus)
      (h : ∀ d ∈ es ++ e :: fs, SignsStay d) : SignsStay (group (es ++ e :: fs))

/-- The kind of an operand tells its part. -/
theorem occur_eq (e : Expr) : e.occur = match e.kind with
    | .plus => .must
    | .minus => .mustNot
    | _ => .should := by
  cases e <;> rfl

theorem isSign_iff_occur : e.kind.isSign = true ↔ e.occur ≠ .should := by
  cases e <;> simp [kind, Kind.isSign, occur]

theorem occur_eq_must_iff : e.occur = .must ↔ e.kind = .plus := by
  cases e <;> simp [kind, occur]

/-- Only a boost may become another kind of node. -/
theorem kind_of_simplified (h : e.simplified = some e') (hboost : e.kind ≠ .boost) :
    e'.kind = e.kind := by
  cases e with
  | word | phrase | regex | doi | url =>
    cases (simplified_of_value?_isSome rfl).symm.trans h
    rfl
  | group =>
    cases eq_of_gather_eq_some (simplified_group.symm.trans h)
    rfl
  | synonyms =>
    cases eq_of_gather_eq_some (simplified_synonyms.symm.trans h)
    rfl
  | boost => exact absurd rfl hboost
  | range =>
    obtain ⟨_, -, h⟩ := Option.bind_eq_some_iff.1 (simplified_range.symm.trans h)
    obtain ⟨_, -, rfl⟩ := Option.map_eq_some_iff.1 h
    rfl
  | field =>
    obtain ⟨_, -, rfl⟩ := Option.map_eq_some_iff.1 (simplified_field.symm.trans h)
    rfl
  | fuzzy =>
    obtain ⟨_, -, rfl⟩ := Option.map_eq_some_iff.1 (simplified_fuzzy.symm.trans h)
    rfl
  | proximity =>
    obtain ⟨_, -, rfl⟩ := Option.map_eq_some_iff.1 (simplified_proximity.symm.trans h)
    rfl
  | plus =>
    obtain ⟨_, -, rfl⟩ := Option.map_eq_some_iff.1 (simplified_plus.symm.trans h)
    rfl
  | minus =>
    obtain ⟨_, -, rfl⟩ := Option.map_eq_some_iff.1 (simplified_minus.symm.trans h)
    rfl

theorem kind_of_mem_operands {o : Expr} (hgroup : e.kind ≠ .group) (ho : o ∈ e.operands) :
    o.kind = e.kind := by
  rw [operands_of_ne_group hgroup, List.mem_singleton] at ho
  rw [ho]

/-- What shows no sign has no signed operands in the end. -/
theorem showsSign_of_simplified {e e' o : Expr} (h : e.simplified = some e')
    (ho : o ∈ e'.operands) (hsign : o.kind.isSign = true) : e.ShowsSign := by
  cases e with
  | plus inner => exact .plus inner
  | minus inner => exact .minus inner
  | group es =>
    cases eq_of_gather_eq_some (simplified_group.symm.trans h)
    obtain ⟨c', hc', ho⟩ := mem_spliceGroups.1 ho
    obtain ⟨c, hc, hsimplified⟩ := List.mem_filterMap.1 hc'
    have hsize : sizeOf c < sizeOf (group es) := sizeOf_lt_of_mem_children hc
    exact .group hc (showsSign_of_simplified hsimplified ho hsign)
  | boost body score =>
    obtain ⟨body', hbody, hboost⟩ := Option.map_eq_some_iff.1 (simplified_boost.symm.trans h)
    split at hboost
    · rename_i hscore
      cases hboost
      have hsize : sizeOf body < sizeOf (boost body score) :=
        sizeOf_lt_of_mem_children List.mem_cons_self
      exact .boost hscore (showsSign_of_simplified hbody ho hsign)
    · cases hboost
      rw [kind_of_mem_operands Kind.noConfusion ho] at hsign
      cases hsign
  | _ =>
    have hkind := kind_of_simplified h Kind.noConfusion
    rw [kind_of_mem_operands (by rw [hkind]; exact Kind.noConfusion) ho, hkind] at hsign
    cases hsign
termination_by sizeOf e

/-! ### What is left of a filled tree -/

theorem Filled.of_simplified (he : e.Filled) (h : e.simplified = some e') : e'.Filled :=
  (Pass.preserves_of_transform hereditary_filledIn Simplification.preserves_filledIn
    he.filledIn h).filled

/-- Something is left of a filled tree. -/
theorem Filled.exists_simplified (he : e.Filled) : ∃ e', e.simplified = some e' := by
  induction he with
  | intro root _ ih =>
    obtain ⟨d, hd⟩ := exists_rebuild root ih
    exact ⟨_, by rw [simplified_eq, hd]; rfl⟩

/-! ### Documents of operands -/

/-- The document of an operand that stands by itself. -/
def ofClause (c : Occur × Document) : Document := if c.1 = .should then c.2 else .boolean [c]

theorem matches_ofClause (c : Occur × Document) :
    (ofClause c).Matches v ↔ (Document.boolean [c]).Matches v := by
  rw [ofClause]
  split
  · rename_i hc
    rw [matches_boolean_of_should (List.cons_ne_nil _ _) (by simpa using hc)]
    simp
  · rfl

theorem compileAt_plus (scope : Option String) (inner : Expr) : compileAt scope (plus inner) =
    do return .boolean [(.must, ← compileAt scope inner)] := by
  cases scope <;> rfl

theorem compileAt_minus (scope : Option String) (inner : Expr) : compileAt scope (minus inner) =
    do return .boolean [(.mustNot, ← compileAt scope inner)] := by
  cases scope <;> rfl

/-- A tree compiles by itself as it does in a group. -/
theorem compileAt_eq_ok_iff_clause : compileAt scope e = .ok q ↔
    ∃ c, clause (compileAt scope) e = .ok c ∧ ofClause c = q := by
  simp only [clause_eq_ok_iff]
  have hplain (hoccur : e.occur = .should) (hunsigned : e.unsigned = e) :
      compileAt scope e = .ok q ↔ ∃ c : Occur × Document, (e.occur = c.1 ∧
        compileAt scope e.unsigned = .ok c.2) ∧ ofClause c = q := by
    rw [hoccur, hunsigned]
    constructor
    · exact fun h => ⟨(.should, q), ⟨rfl, h⟩, rfl⟩
    · rintro ⟨⟨_, _⟩, ⟨rfl, h⟩, rfl⟩
      exact h
  cases e with
  | plus inner | minus inner =>
    simp only [compileAt_plus, compileAt_minus, bind_eq_ok_iff]
    constructor
    · rintro ⟨d, hd, h⟩
      exact ⟨(_, d), ⟨rfl, hd⟩, Except.ok.inj h⟩
    · rintro ⟨⟨_, d⟩, ⟨rfl, hd⟩, rfl⟩
      exact ⟨d, hd, rfl⟩
  | _ => exact hplain rfl rfl

/-- The operands of a tree are combined to its document. -/
theorem exists_clauses_of_compileAt (he : e.Filled) (h : compileAt scope e = .ok q) :
    ∃ cs, e.operands.mapM (clause (compileAt scope)) = .ok cs ∧ cs ≠ [] ∧
      ∀ v, (Document.boolean cs).Matches v ↔ q.Matches v := by
  by_cases hgroup : e.kind = .group
  · cases e with
    | group es =>
      rw [compileAt_group] at h
      obtain ⟨cs, hcs, h⟩ := bind_eq_ok_iff.1 h
      have hne : cs ≠ [] := mapM_ne_nil hcs he.root
      refine ⟨cs, hcs, hne, fun v => ?_⟩
      cases cs with
      | nil => exact absurd rfl hne
      | cons c cs =>
        cases h
        rfl
    | _ => cases hgroup
  · obtain ⟨c, hc, rfl⟩ := compileAt_eq_ok_iff_clause.1 h
    refine ⟨[c], ?_, List.cons_ne_nil _ _, fun v => (matches_ofClause c).symm⟩
    rw [operands_of_ne_group hgroup, List.mapM_cons, hc]
    rfl

/-! ### Trees and what is left of them -/

/-- A tree that has a document, and what is left of it, which has one as well. -/
structure Replacement (scope : Option String) where
  /-- The tree. -/
  tree : Expr
  /-- What is left of it. -/
  left : Expr
  /-- The document of the tree. -/
  before : Document
  /-- The document of what is left. -/
  after : Document
  /-- The pass makes the one of the other. -/
  simplified_tree : tree.simplified = some left
  /-- The tree has its document. -/
  compileAt_tree : compileAt scope tree = .ok before
  /-- What is left has its document. -/
  compileAt_left : compileAt scope left = .ok after
  /-- Both match together if no sign is lifted. -/
  matches_iff : tree.SignsStay → ∀ v, after.Matches v ↔ before.Matches v

/-- The same for an operand, with its clause and the clauses that take its place. -/
structure OperandReplacement (scope : Option String) extends Replacement scope where
  /-- The clause of the operand. -/
  clause : Occur × Document
  /-- The clauses of what is left of it. -/
  clauses : List (Occur × Document)
  /-- The operand has its clause. -/
  clause_tree : tree.clause (compileAt scope) = .ok clause
  /-- The operands of what is left have the clauses. -/
  clauses_left : left.operands.mapM (Expr.clause (compileAt scope)) = .ok clauses
  /-- There are some. -/
  clauses_ne_nil : clauses ≠ []
  /-- Both match together if no sign is lifted. -/
  clauses_matches_iff : tree.SignsStay →
    ∀ v, (boolean clauses).Matches v ↔ (boolean [clause]).Matches v

/-- The tree has a document, and what is left of it one that matches together with it. -/
def Keeps (scope : Option String) (e : Expr) (q : Document) : Prop :=
  ∃ r : Replacement scope, r.tree = e ∧ r.before = q

/-- Where the pass changes nothing. -/
theorem Keeps.unchanged (h : e.simplified = some e) (hq : compileAt scope e = .ok q) :
    Keeps scope e q :=
  ⟨⟨e, e, q, q, h, hq, hq, fun _ _ => Iff.rfl⟩, rfl, rfl⟩

/-- Where it changes something. -/
theorem Keeps.of_changed {q' : Document} (h : e.simplified = some e')
    (hq : compileAt scope e = .ok q) (hq' : compileAt scope e' = .ok q')
    (hmatches : e.SignsStay → e.simplified ≠ some e → ∀ v, q'.Matches v ↔ q.Matches v) :
    Keeps scope e q := by
  by_cases hsame : e.simplified = some e
  · exact .unchanged hsame hq
  · exact ⟨⟨e, e', q, q', h, hq, hq', fun hstay => hmatches hstay hsame⟩, rfl, rfl⟩

namespace OperandReplacement

/-- An operand that has a document in the end has clauses. -/
theorem exists_of_keeps (he : e.Filled) {c : Occur × Document}
    (hc : Expr.clause (compileAt scope) e = .ok c)
    (h : ∀ q, compileAt scope e = .ok q → Keeps scope e q) :
    ∃ r : OperandReplacement scope, r.tree = e ∧ r.clause = c := by
  obtain ⟨r, rfl, hr⟩ := h _ (compileAt_eq_ok_iff_clause.2 ⟨c, hc, rfl⟩)
  obtain ⟨cs, hcs, hne, hmatches⟩ :=
    exists_clauses_of_compileAt (he.of_simplified r.simplified_tree) r.compileAt_left
  refine ⟨⟨r, c, cs, hc, hcs, hne, fun hstay v => ?_⟩, rfl, rfl⟩
  rw [hmatches, r.matches_iff hstay, hr, matches_ofClause]

variable (r : OperandReplacement scope)

theorem occur_tree : r.tree.occur = r.clause.1 := (clause_eq_ok_iff.1 r.clause_tree).1

/-- If no sign is lifted out of the operand, its clauses take its part. -/
theorem occur_of_mem_clauses (hsigns : r.tree.ShowsSign → r.tree.kind.isSign = true)
    {c : Occur × Document} (hc : c ∈ r.clauses) : c.1 = r.clause.1 := by
  obtain ⟨o, ho, hoc⟩ := exists_of_mem_mapM r.clauses_left hc
  rw [← (clause_eq_ok_iff.1 hoc).1, ← r.occur_tree]
  by_cases hsign : r.tree.kind.isSign = true
  · have hboost : r.tree.kind ≠ .boost := fun h => by simp [h, Kind.isSign] at hsign
    have hleft : r.left.kind = r.tree.kind := kind_of_simplified r.simplified_tree hboost
    have hgroup : r.left.kind ≠ .group := fun h => by simp [← hleft, h, Kind.isSign] at hsign
    rw [occur_eq, occur_eq, (kind_of_mem_operands hgroup ho).trans hleft]
  · have hnone : ¬ r.tree.ShowsSign := fun h => hsign (hsigns h)
    have ho' : ¬ o.kind.isSign = true := fun h =>
      hnone (showsSign_of_simplified r.simplified_tree ho h)
    rw [isSign_iff_occur, ne_eq, not_not] at hsign ho'
    rw [hsign, ho']

end OperandReplacement

/-! ### Lists of operands and of alternatives -/

/-- Members with a choice for each answer. -/
theorem exists_of_mapM {ε α β ι : Type} {f : α → Except ε β} (source : ι → α) (answer : ι → β)
    {xs : List α} {ys : List β} (hys : xs.mapM f = .ok ys)
    (h : ∀ x ∈ xs, ∀ y, f x = .ok y → ∃ i, source i = x ∧ answer i = y) :
    ∃ is : List ι, is.map source = xs ∧ is.map answer = ys := by
  induction xs generalizing ys with
  | nil =>
    cases hys
    exact ⟨[], rfl, rfl⟩
  | cons x xs ih =>
    rw [List.mapM_cons, bind_eq_ok_iff] at hys
    obtain ⟨y, hy, hys⟩ := hys
    obtain ⟨ys', hys', hcons⟩ := bind_eq_ok_iff.1 hys
    cases hcons
    obtain ⟨i, rfl, rfl⟩ := h x List.mem_cons_self y hy
    obtain ⟨is, rfl, rfl⟩ := ih hys' fun x hx => h x (List.mem_cons_of_mem _ hx)
    exact ⟨i :: is, rfl, rfl⟩

theorem filterMap_simplified {ι : Type} (r : ι → Replacement scope) (is : List ι) :
    (is.map fun i => (r i).tree).filterMap simplified = is.map fun i => (r i).left := by
  induction is with
  | nil => rfl
  | cons i is ih =>
    rw [List.map_cons, List.filterMap_cons_some (r i).simplified_tree, ih, List.map_cons]

theorem mapM_spliceGroups {rs : List (OperandReplacement scope)} :
    (spliceGroups (rs.map (·.left))).mapM (clause (compileAt scope)) =
      .ok (rs.flatMap (·.clauses)) := by
  induction rs with
  | nil => rfl
  | cons r rs ih =>
    rw [List.map_cons, spliceGroups_cons, List.mapM_append, r.clauses_left, ih]
    rfl

theorem mapM_compileAt_left {rs : List (Replacement scope)} :
    (rs.map (·.left)).mapM (compileAt scope) = .ok (rs.map (·.after)) := by
  rw [mapM_eq_ok_iff, List.map_map, List.map_map]
  exact List.map_congr_left fun r _ => r.compileAt_left

/-! ### What each kind of node keeps -/

theorem Keeps.synonyms (he : (synonyms es).Filled) (h : compileAt scope (synonyms es) = .ok q)
    (hes : ∀ e ∈ es, ∀ q, compileAt scope e = .ok q → Keeps scope e q) :
    Keeps scope (Expr.synonyms es) q := by
  have hq := h
  rw [compileAt_synonyms] at h
  obtain ⟨ds, hds, h⟩ := bind_eq_ok_iff.1 h
  obtain ⟨rs, rfl, rfl⟩ := exists_of_mapM Replacement.tree Replacement.before hds hes
  have hne : rs ≠ [] := by
    rintro rfl
    exact he.root rfl
  have hsimplified : (Expr.synonyms (rs.map (·.tree))).simplified =
      some (Expr.synonyms (rs.map (·.left))) := by
    have hleft : (rs.map (·.tree)).filterMap simplified = rs.map (·.left) :=
      filterMap_simplified id rs
    rw [simplified_synonyms, hleft, gather_of_ne_nil (by simpa using hne)]
  have hafter : compileAt scope (Expr.synonyms (rs.map (·.left))) =
      .ok (ofDisjuncts (rs.map (·.after))) := by
    rw [compileAt_synonyms, mapM_compileAt_left]
    rfl
  refine .of_changed hsimplified hq hafter fun hstay hchanged v => ?_
  cases hstay with
  | unchanged hsame => exact absurd hsame hchanged
  | synonyms hstay =>
    cases h
    rw [ofDisjuncts_of_ne_nil (by simpa using hne), ofDisjuncts_of_ne_nil (by simpa using hne),
      matches_best, matches_best]
    simp only [List.mem_map, exists_exists_and_eq_and]
    exact exists_congr fun r => and_congr_right fun hr =>
      r.matches_iff (hstay _ (List.mem_map_of_mem hr)) v

theorem SignsStay.group_cases (h : (Expr.group es).SignsStay) :
    (Expr.group es).simplified = some (Expr.group es) ∨
      ((∀ e ∈ es, e.ShowsSign → e.kind.isSign = true) ∧
        ∀ e ∈ es, (e.kind.isSign = true ∨ ∀ d ∈ es, d.kind ≠ .plus) → e.SignsStay) ∨
      ∃ ds d fs, es = ds ++ d :: fs ∧ (∀ e ∈ ds ++ fs, e.kind = .minus) ∧
        ∀ e ∈ es, e.SignsStay := by
  generalize ht : Expr.group es = t at h
  cases h with
  | unchanged hsame => exact .inl hsame
  | group hsigns hstay =>
    cases ht
    exact .inr (.inl ⟨hsigns, hstay⟩)
  | alone hminus hstay =>
    cases ht
    exact .inr (.inr ⟨_, _, _, rfl, hminus, hstay⟩)
  | field | synonyms | boost | plus | minus => cases ht

/-- Where no sign is lifted out of an operand, the clauses are replaced one by one. -/
theorem matches_clauses_of_signs {rs : List (OperandReplacement scope)}
    (hsigns : ∀ r ∈ rs, r.tree.ShowsSign → r.tree.kind.isSign = true)
    (hstay : ∀ r ∈ rs, (r.tree.kind.isSign = true ∨ ∀ d ∈ rs, d.tree.kind ≠ .plus) →
      r.tree.SignsStay) :
    (boolean (rs.flatMap (·.clauses))).Matches v ↔ (boolean (rs.map (·.clause))).Matches v := by
  refine matches_boolean_flatMap_iff (fun r _ => r.clauses_ne_nil)
    (fun r hr c hc => r.occur_of_mem_clauses (hsigns r hr) hc) fun r hr hcounts => ?_
  refine r.clauses_matches_iff (hstay r hr ?_) v
  by_cases hsign : r.tree.kind.isSign = true
  · exact .inl hsign
  · rw [isSign_iff_occur, ne_eq, not_not, r.occur_tree] at hsign
    refine .inr fun d hd hplus => hcounts hsign d hd ?_
    rw [← d.occur_tree, occur_eq_must_iff, hplus]

/-- Where all other operands are excluded, signs may be lifted out of one. -/
theorem matches_clauses_of_alone {rs ts : List (OperandReplacement scope)}
    {r : OperandReplacement scope} (hminus : ∀ d ∈ rs ++ ts, d.tree.kind = .minus)
    (hstay : ∀ d ∈ rs ++ r :: ts, d.tree.SignsStay) :
    (boolean ((rs ++ r :: ts).flatMap (·.clauses))).Matches v ↔
      (boolean ((rs ++ r :: ts).map (·.clause))).Matches v := by
  have hsigns : ∀ d ∈ rs ++ ts, d.tree.ShowsSign → d.tree.kind.isSign = true := fun d hd _ => by
    rw [hminus d hd]
    rfl
  have hclause : ∀ d ∈ rs ++ ts, d.clause.1 = .mustNot := fun d hd => by
    rw [← d.occur_tree, occur_eq, hminus d hd]
  have hbefore : ∀ c ∈ rs.map (·.clause) ++ ts.map (·.clause), c.1 = .mustNot := by
    rw [← List.map_append]
    rintro c hc
    obtain ⟨d, hd, rfl⟩ := List.mem_map.1 hc
    exact hclause d hd
  have hafter : ∀ c ∈ rs.flatMap (·.clauses) ++ ts.flatMap (·.clauses), c.1 = .mustNot := by
    rw [← List.flatMap_append]
    rintro c hc
    obtain ⟨d, hd, hc⟩ := List.mem_flatMap.1 hc
    exact (d.occur_of_mem_clauses (hsigns d hd) hc).trans (hclause d hd)
  have hout := matches_clauses_of_signs (v := v) hsigns fun d hd _ =>
    hstay d (by simp only [List.mem_append, List.mem_cons] at hd ⊢; grind)
  have hin := r.clauses_matches_iff (hstay r (by simp)) v
  rw [List.flatMap_append, List.map_append] at hout
  rw [List.flatMap_append, List.flatMap_cons, matches_boolean_between hafter, hout, hin,
    List.map_append, List.map_cons, ← List.singleton_append (l := ts.map _),
    matches_boolean_between hbefore]

/-- The clauses of a group, with those of the groups in it among them. -/
theorem Keeps.group (he : (group es).Filled) (h : compileAt scope (group es) = .ok q)
    (hes : ∀ e ∈ es, ∀ q, compileAt scope e = .ok q → Keeps scope e q) :
    Keeps scope (Expr.group es) q := by
  have hq := h
  rw [compileAt_group] at h
  obtain ⟨cs, hcs, h⟩ := bind_eq_ok_iff.1 h
  obtain ⟨rs, rfl, rfl⟩ := exists_of_mapM
    (fun r : OperandReplacement scope => r.tree) OperandReplacement.clause hcs
    fun e hmem c hc => OperandReplacement.exists_of_keeps (he.child hmem) hc (hes e hmem)
  have hne : rs ≠ [] := by
    rintro rfl
    exact he.root rfl
  have hsimplified : (Expr.group (rs.map (·.tree))).simplified =
      some (Expr.group (spliceGroups (rs.map (·.left)))) := by
    rw [simplified_group, filterMap_simplified OperandReplacement.toReplacement,
      gather_of_ne_nil (by simpa using hne)]
  have hafter : compileAt scope (Expr.group (spliceGroups (rs.map (·.left)))) =
      .ok (ofClauses (rs.flatMap (·.clauses))) := by
    rw [compileAt_group, mapM_spliceGroups]
    rfl
  have hne' : rs.flatMap (·.clauses) ≠ [] := by
    obtain ⟨r, hr⟩ := List.exists_mem_of_ne_nil _ hne
    obtain ⟨c, hc⟩ := List.exists_mem_of_ne_nil _ r.clauses_ne_nil
    exact List.ne_nil_of_mem (List.mem_flatMap.2 ⟨r, hr, hc⟩)
  refine .of_changed hsimplified hq hafter fun hstay hchanged v => ?_
  cases h
  rw [ofClauses_of_ne_nil hne', ofClauses_of_ne_nil (by simpa using hne)]
  rcases hstay.group_cases with hsame | ⟨hsigns, hstay⟩ | ⟨ds, d, fs, hsplit, hminus, hstay⟩
  · exact absurd hsame hchanged
  · exact matches_clauses_of_signs (fun r hr => hsigns _ (List.mem_map_of_mem hr)) fun r hr hor =>
      hstay _ (List.mem_map_of_mem hr) (hor.imp_right fun h => by simpa using h)
  · obtain ⟨rs, rest, rfl, rfl, hrest⟩ := List.map_eq_append_iff.1 hsplit
    obtain ⟨r, ts, rfl, rfl, rfl⟩ := List.map_eq_cons_iff.1 hrest
    refine matches_clauses_of_alone (fun d hd => ?_) fun d hd => hstay _ (List.mem_map_of_mem hd)
    rw [← List.map_append] at hminus
    exact hminus _ (List.mem_map_of_mem hd)

theorem Keeps.boost {body : Expr} {score : Decimal}
    (h : compileAt scope (boost body score) = .ok q)
    (hbody : ∀ q, compileAt scope body = .ok q → Keeps scope body q) :
    Keeps scope (Expr.boost body score) q := by
  have hq := h
  rw [compileAt_boost] at h
  obtain ⟨d, hd, h⟩ := bind_eq_ok_iff.1 h
  cases h
  obtain ⟨r, rfl, rfl⟩ := hbody d hd
  have hsimplified : (Expr.boost r.tree score).simplified = _ := simplified_boost
  rw [r.simplified_tree, Option.map_some] at hsimplified
  split at hsimplified
  · refine .of_changed hsimplified hq r.compileAt_left fun hstay hchanged v => ?_
    rw [Document.boosted, matches_boost]
    cases hstay with
    | unchanged hsame => exact absurd hsame hchanged
    | boost hstay => exact r.matches_iff hstay v
  · have hafter : compileAt scope (Expr.boost r.left score) = .ok (r.after.boosted score) := by
      rw [compileAt_boost, r.compileAt_left]
      rfl
    refine .of_changed hsimplified hq hafter fun hstay hchanged v => ?_
    rw [Document.boosted, Document.boosted, matches_boost, matches_boost]
    cases hstay with
    | unchanged hsame => exact absurd hsame hchanged
    | boost hstay => exact r.matches_iff hstay v

theorem Keeps.plus {inner : Expr} (h : compileAt scope (plus inner) = .ok q)
    (hinner : ∀ q, compileAt scope inner = .ok q → Keeps scope inner q) :
    Keeps scope (Expr.plus inner) q := by
  have hq := h
  rw [compileAt_plus] at h
  obtain ⟨d, hd, h⟩ := bind_eq_ok_iff.1 h
  cases h
  obtain ⟨r, rfl, rfl⟩ := hinner d hd
  have hafter : compileAt scope (Expr.plus r.left) = .ok (boolean [(.must, r.after)]) := by
    rw [compileAt_plus, r.compileAt_left]
    rfl
  refine .of_changed (by rw [simplified_plus, r.simplified_tree]; rfl) hq hafter
    fun hstay hchanged v => ?_
  rw [matches_boolean_of_must (by simp), matches_boolean_of_must (by simp)]
  cases hstay with
  | unchanged hsame => exact absurd hsame hchanged
  | plus hstay => simpa using r.matches_iff hstay v

theorem Keeps.minus {inner : Expr} (h : compileAt scope (minus inner) = .ok q)
    (hinner : ∀ q, compileAt scope inner = .ok q → Keeps scope inner q) :
    Keeps scope (Expr.minus inner) q := by
  have hq := h
  rw [compileAt_minus] at h
  obtain ⟨d, hd, h⟩ := bind_eq_ok_iff.1 h
  cases h
  obtain ⟨r, rfl, rfl⟩ := hinner d hd
  have hafter : compileAt scope (Expr.minus r.left) = .ok (boolean [(.mustNot, r.after)]) := by
    rw [compileAt_minus, r.compileAt_left]
    rfl
  refine .of_changed (by rw [simplified_minus, r.simplified_tree]; rfl) hq hafter
    fun hstay hchanged v => ?_
  rw [matches_boolean_of_mustNot (by simp), matches_boolean_of_mustNot (by simp)]
  cases hstay with
  | unchanged hsame => exact absurd hsame hchanged
  | minus hstay => simpa using not_congr (r.matches_iff hstay v)

/-- A search in a field is no part of another one. -/
theorem Keeps.field {name : String} {body : Expr} (h : compileAt scope (field name body) = .ok q)
    (hbody : ∀ scope q, compileAt scope body = .ok q → Keeps scope body q) :
    Keeps scope (Expr.field name body) q := by
  cases scope with
  | some => cases h
  | none =>
    obtain ⟨r, rfl, rfl⟩ := hbody (some name) q h
    refine .of_changed (by rw [simplified_field, r.simplified_tree]; rfl) h
      (show compileAt none (Expr.field name r.left) = .ok r.after from r.compileAt_left)
      fun hstay hchanged v => ?_
    cases hstay with
    | unchanged hsame => exact absurd hsame hchanged
    | field hstay => exact r.matches_iff hstay v

/-- A node that is printed outside of fields holds only terms in one. -/
theorem Keeps.printed (he : e.Filled)
    (hkind : e.kind = .range ∨ e.kind = .fuzzy ∨ e.kind = .proximity)
    (h : compileAt scope e = .ok q) : Keeps scope e q := by
  cases scope with
  | none =>
    obtain ⟨e', he'⟩ := he.exists_simplified
    have hboost : e.kind ≠ .boost := fun h => by simp [h] at hkind
    have hkind' : e'.kind = .range ∨ e'.kind = .fuzzy ∨ e'.kind = .proximity := by
      rwa [kind_of_simplified he' hboost]
    have hafter : compileAt none e' = .ok (.freeText e'.text) := by
      cases e' with
      | range | fuzzy | proximity => rfl
      | _ => simp [kind] at hkind'
    refine .of_changed he' h hafter fun hstay hchanged => ?_
    cases hstay with
    | unchanged hsame => exact absurd hsame hchanged
    | _ => simp [kind] at hkind
  | some name =>
    have hbound {e : Expr} {value : String} (h : boundIn name e = .ok value) :
        e.simplified = some e := by
      cases e with
      | word | phrase | doi | url => exact simplified_of_value?_isSome rfl
      | _ => cases h
    cases e with
    | range left right il ir =>
      have hq := h
      obtain ⟨l, hl, h⟩ := bind_eq_ok_iff.1 h
      obtain ⟨r, hr, -⟩ := bind_eq_ok_iff.1 h
      exact .unchanged (by rw [simplified_range, hbound hl, hbound hr]; rfl) hq
    | fuzzy => cases h
    | proximity term =>
      cases term with
      | phrase v =>
        have hphrase : (phrase v).simplified = some (phrase v) := simplified_of_value?_isSome rfl
        exact .unchanged (by rw [simplified_proximity, hphrase]; rfl) h
      | _ => cases h
    | _ => simp [kind] at hkind

/-- **What is left of a tree with a document has one as well**, in a field or in none, and if no
sign is lifted, both match together. -/
theorem Filled.keeps (he : e.Filled) {scope : Option String} {q : Document}
    (h : compileAt scope e = .ok q) : Keeps scope e q := by
  induction he generalizing scope q with
  | @intro e root below ih =>
    have he : e.Filled := ⟨root, below⟩
    cases e with
    | word | phrase | regex | doi | url => exact .unchanged (simplified_of_value?_isSome rfl) h
    | field => exact .field h fun scope q hq => ih _ List.mem_cons_self hq
    | group => exact .group he h fun c hc q hq => ih c hc hq
    | synonyms => exact .synonyms he h fun c hc q hq => ih c hc hq
    | boost => exact .boost h fun q hq => ih _ List.mem_cons_self hq
    | plus => exact .plus h fun q hq => ih _ List.mem_cons_self hq
    | minus => exact .minus h fun q hq => ih _ List.mem_cons_self hq
    | range | fuzzy | proximity => exact .printed he (by simp [kind]) h

end Expr

/-- **The document of a tree after the pass.** A tree without empty groups that has a document has
one after the pass, and both match together if no sign is lifted. -/
theorem exists_compile_of_run_simplification {t : Expr} {q : Document} (ht : t.Filled)
    (h : t.compile = .ok q) (c : Context) :
    ∃ t' q', Pass.simplification.run t c = (some t', c) ∧ t'.compile = .ok q' ∧
      (t.SignsStay → ∀ v, q'.Matches v ↔ q.Matches v) := by
  obtain ⟨r, rfl, rfl⟩ := ht.keeps (show compileAt none t = .ok q from h)
  refine ⟨r.left, r.after, ?_, r.compileAt_left, r.matches_iff⟩
  rw [run_simplification, r.simplified_tree]

/-- The requirement in the inner group is lifted beside an exclusion, and a boost by one goes. -/
theorem exists_compile_of_run_simplification_excluded :
    ∃ t t' q q', t = Expr.group [.group [.plus (.word "rust"), .boost (.word "web") .one],
        .minus (.word "old")] ∧
      t.Filled ∧ t.SignsStay ∧ t.compile = .ok q ∧ Pass.simplification.run t {} = (some t', {}) ∧
      t' = .group [.plus (.word "rust"), .word "web", .minus (.word "old")] ∧
      t'.compile = .ok q' ∧ ∀ v, q'.Matches v ↔ q.Matches v := by
  have hword (v : String) : (Expr.word v).simplified = some (.word v) :=
    simplified_of_value?_isSome rfl
  have hinner : (Expr.group [.plus (.word "rust"), .boost (.word "web") .one]).SignsStay := by
    refine .group (fun e he hshows => ?_) fun e he hor => ?_
    · simp only [List.mem_cons, List.not_mem_nil, or_false] at he
      rcases he with rfl | rfl
      · rfl
      · cases hshows with
        | boost _ h => cases h
    · simp only [List.mem_cons, List.not_mem_nil, or_false] at he
      rcases he with rfl | rfl
      · exact .plus (.unchanged (hword _))
      · exact .boost (.unchanged (hword _))
  have hstay : (Expr.group [.group [.plus (.word "rust"), .boost (.word "web") .one],
      .minus (.word "old")]).SignsStay := by
    have hminus : ∀ d ∈ [] ++ [Expr.minus (.word "old")], d.kind = .minus := by simp [kind]
    exact .alone hminus (by simpa using ⟨hinner, .minus (.unchanged (hword _))⟩)
  have hfilled : (Expr.group [.group [.plus (.word "rust"), .boost (.word "web") .one],
      .minus (.word "old")]).Filled := by
    simp [Filled, HasOperands]
  have hone : Decimal.one.sameSize .one = true := by decide
  obtain ⟨t', q', hrun, hq', hmatches⟩ := exists_compile_of_run_simplification hfilled rfl {}
  have hleft : t' = .group [.plus (.word "rust"), .word "web", .minus (.word "old")] := by
    rw [run_simplification] at hrun
    simpa [hword, hone, gather, spliceGroups] using hrun.symm
  exact ⟨_, t', _, q', rfl, hfilled, hstay, rfl, hrun, hleft, hq', hmatches hstay⟩

/-- **A requirement that is lifted.** An entry that only the last word matches is found before the
pass and not after it. -/
theorem not_matches_iff_of_lifted_sign :
    ∃ t t' q q' v, t = Expr.group [.group [.plus (.word "a"), .word "b"], .word "c"] ∧
      t.Filled ∧ t.compile = .ok q ∧ Pass.simplification.run t {} = (some t', {}) ∧
      t'.compile = .ok q' ∧ q.Matches v ∧ ¬ q'.Matches v := by
  have hword (v : String) : (Expr.word v).simplified = some (.word v) :=
    simplified_of_value?_isSome rfl
  refine ⟨_, .group [.plus (.word "a"), .word "b", .word "c"],
    .boolean [(.should, .boolean [(.must, .freeText "a"), (.should, .freeText "b")]),
      (.should, .freeText "c")],
    .boolean [(.must, .freeText "a"), (.should, .freeText "b"), (.should, .freeText "c")],
    (· = .freeText "c"), rfl, ?_, rfl, ?_, rfl, ?_, ?_⟩
  · simp [Filled, HasOperands]
  · rw [run_simplification]
    simp [hword, gather, spliceGroups]
  · rw [Document.matches_boolean_of_should (by simp) (by simp)]
    exact ⟨(.should, .freeText "c"), by simp, by simp⟩
  · intro hmatches
    have hmust := (Document.matches_boolean.1 hmatches).1 _ List.mem_cons_self rfl
    simp at hmust

end SearchQuery
