import Mathlib.Data.List.Forall2
import Mathlib.Data.Prod.Basic
import SearchQuery.Proofs.Document.Matching
import SearchQuery.Proofs.Pass.Finishing
import SearchQuery.Proofs.Pass.Shaping

/-!
# Fields are handed down alike

A field over a group goes to the operands of the group in two places: when the tree is brought into
the shape that the search engine takes, and when a tree is compiled. Both walk down through groups,
alternatives, signs and boosts, and what arrives at the atoms is the same, so the shaped tree
compiles to the document of the tree, and to none if the tree has none.

## Signs below a field

There is one difference. An operand of a group takes part in the combination as its sign says. A
field directly over a sign goes below it in the shaped tree, where the operand is then a signed one;
when the tree is compiled as it is, the operand has no sign, and its clause is a combination of one
clause. The two documents differ at every such operand, and nowhere else.

## Main definitions

* `Expr.document?`, `Expr.clause?` — what a tree compiles to, by itself and as an operand
* `Expr.HidesSign` — a field directly over a sign
* `Expr.SignsInSight` — no operand of a group hides its sign
* `Expr.SignsAreLow` — no sign stands directly over a group or over alternatives
* `Expr.Agrees` — a tree and what becomes of it have the same document and the same clause, except
  for hidden signs

## Main results

* `Expr.document?_eq_none_of_field` — there is no field in a field, after shaping either
* `Expr.Regular.shapesAlike` — what becomes of a regular tree agrees with it
-/

namespace SearchQuery

variable {ε α β γ : Type}

/-! ### Answers without reasons -/

theorem toOption_bind (x : Except ε α) (f : α → Except ε β) :
    (x >>= f).toOption = x.toOption.bind fun a => (f a).toOption := by
  cases x <;> rfl

theorem toOption_mapM (f : α → Except ε β) (xs : List α) :
    (xs.mapM f).toOption = xs.mapM fun x => (f x).toOption := by
  induction xs with
  | nil => rfl
  | cons x xs ih =>
    rw [List.mapM_cons, List.mapM_cons, toOption_bind, ← ih]
    congr 1
    funext y
    rw [toOption_bind]
    rfl

/-- Members that agree unless the first ones have no answer make lists that do. -/
theorem mapM_eq_mapM_iff {f : α → Option γ} {g : β → Option γ} {G : α → Prop} {xs : List α}
    {ys : List β} (h : List.Forall₂ (fun x y => g y = f x ↔ f x = none ∨ G x) xs ys) :
    ys.mapM g = xs.mapM f ↔ xs.mapM f = none ∨ ∀ x ∈ xs, G x := by
  induction h with
  | nil => simp
  | @cons x y xs ys hxy _ ih =>
    rw [List.mapM_cons, List.mapM_cons, List.forall_mem_cons]
    cases hx : f x with
    | none =>
      rw [hx] at hxy
      simp [hxy.2 (.inl rfl)]
    | some a =>
      rw [hx] at hxy
      cases hxs : xs.mapM f with
      | none =>
        rw [hxs] at ih
        cases g y <;> simp [ih.2 (.inl rfl)]
      | some as =>
        rw [hxs] at ih
        cases hy : g y <;> cases hys : ys.mapM g <;> simp_all

theorem mapM_eq_none_of_forall {f : α → Option β} {xs : List α} (hne : xs ≠ [])
    (h : ∀ x ∈ xs, f x = none) : xs.mapM f = none := by
  cases xs with
  | nil => exact absurd rfl hne
  | cons x xs =>
    rw [List.mapM_cons, h x List.mem_cons_self]
    rfl

/-- The members for which there is an answer, if there is one for each. -/
theorem exists_filterMap_eq {f : α → Option β} {R : α → β → Prop} {xs : List α}
    (h : ∀ x ∈ xs, ∃ y, f x = some y ∧ R x y) :
    ∃ ys, xs.filterMap f = ys ∧ List.Forall₂ R xs ys := by
  induction xs with
  | nil => exact ⟨[], rfl, .nil⟩
  | cons x xs ih =>
    obtain ⟨y, hy, hR⟩ := h x List.mem_cons_self
    obtain ⟨ys, rfl, hys⟩ := ih fun x hx => h x (List.mem_cons_of_mem _ hx)
    exact ⟨_, by rw [List.filterMap_cons_some hy], .cons hR hys⟩

namespace Document

theorem ofClauses_injective : Function.Injective ofClauses := by
  intro cs cs' h
  cases cs <;> cases cs' <;> simp_all [ofClauses]

theorem ofDisjuncts_injective : Function.Injective ofDisjuncts := by
  intro ds ds' h
  cases ds <;> cases ds' <;> simp_all [ofDisjuncts]

end Document

namespace Expr

/-! ### Documents in a field or in none -/

/-- What a tree compiles to in a field or in none, if it does. -/
def document? (scope : Option String) (e : Expr) : Option Document := (compileAt scope e).toOption

/-- What an operand contributes to the document of its group, if it does. -/
def clause? (scope : Option String) (e : Expr) : Option (Occur × Document) :=
  (e.unsigned.document? scope).map (e.occur, ·)

/-- The search in a field or in none. -/
def inScope : Option String → Expr → Expr
  | none, e => e
  | some name, e => field name e

section Constructors

variable {scope : Option String} {name : String} {body e : Expr} {es : List Expr} {score : Decimal}

theorem document?_group :
    (group es).document? scope = (es.mapM (clause? scope)).map Document.ofClauses := by
  have hclause (e : Expr) : (clause (compileAt scope) e).toOption = e.clause? scope := by
    rw [clause, toOption_bind, clause?, Option.map_eq_bind]
    rfl
  rw [document?, compileAt_group, toOption_bind, toOption_mapM, funext hclause,
    Option.map_eq_bind]
  rfl

theorem document?_synonyms :
    (synonyms es).document? scope = (es.mapM (document? scope)).map Document.ofDisjuncts := by
  rw [document?, compileAt_synonyms, toOption_bind, toOption_mapM, Option.map_eq_bind]
  rfl

theorem document?_boost :
    (boost body score).document? scope = (body.document? scope).map (Document.boosted · score) := by
  rw [document?, compileAt_boost, toOption_bind, Option.map_eq_bind]
  rfl

theorem document?_plus :
    (plus body).document? scope = (body.document? scope).map fun d => .boolean [(.must, d)] := by
  rw [Option.map_eq_bind]
  cases scope with
  | none => exact toOption_bind (compile body) _
  | some name => exact toOption_bind (compileIn name body) _

theorem document?_minus :
    (minus body).document? scope =
      (body.document? scope).map fun d => .boolean [(.mustNot, d)] := by
  rw [Option.map_eq_bind]
  cases scope with
  | none => exact toOption_bind (compile body) _
  | some name => exact toOption_bind (compileIn name body) _

theorem document?_field_none : (field name body).document? none = body.document? (some name) := rfl

/-- There is no field in a field. -/
theorem document?_field_some (outer : String) : (field name body).document? (some outer) = none :=
  rfl

theorem clause?_eq_none_iff : e.clause? scope = none ↔ e.document? scope = none := by
  rw [clause?, Option.map_eq_none_iff]
  cases e with
  | plus => rw [document?_plus, Option.map_eq_none_iff, unsigned]
  | minus => rw [document?_minus, Option.map_eq_none_iff, unsigned]
  | _ => rfl

/-- An operand without a sign only counts when it matches. -/
theorem clause?_of_not_isSign (h : e.kind.isSign = false) :
    e.clause? scope = (e.document? scope).map (.should, ·) := by
  cases e with
  | plus | minus => cases h
  | _ => rfl

theorem shaped_inScope_group : (inScope scope (group es)).shaped =
    gather group (es.filterMap fun e => (inScope scope e).shaped) := by
  cases scope with
  | none => exact shaped_group
  | some name => exact shaped_field_group

theorem shaped_inScope_synonyms : (inScope scope (synonyms es)).shaped =
    gather synonyms (es.filterMap fun e => (inScope scope e).shaped) := by
  cases scope with
  | none => exact shaped_synonyms
  | some name => exact shaped_field_synonyms

theorem shaped_inScope_boost : (inScope scope (boost body score)).shaped =
    (inScope scope body).shaped.map (boost · score) := by
  cases scope with
  | none => exact shaped_boost
  | some name => exact shaped_field_boost

theorem shaped_inScope_plus (hbody : body.kind ≠ .group) :
    (inScope scope (plus body)).shaped = (inScope scope body).shaped.map plus := by
  cases scope with
  | none => exact shaped_plus hbody
  | some name => exact shaped_field_plus

theorem shaped_inScope_minus (hgroup : body.kind ≠ .group) (hsynonyms : body.kind ≠ .synonyms) :
    (inScope scope (minus body)).shaped = (inScope scope body).shaped.map minus := by
  cases scope with
  | none => exact shaped_minus hgroup hsynonyms
  | some name => exact shaped_field_minus

end Constructors

/-- An atom stays where it is, below its field if it has one. -/
theorem shaped_inScope_of_isAtom {e : Expr} (he : e.IsAtom) (scope : Option String) :
    (inScope scope e).shaped = some (inScope scope e) := by
  have hatom : e.shaped = some e := BackendShape.parentsFirst_of_isAtom he
  cases scope with
  | none => exact hatom
  | some name =>
    have hpush : e.pushField name = field name e := by
      cases e with
      | group | synonyms | boost | plus | minus => cases he.1
      | _ => rfl
    exact (shaped_field hpush).trans (by rw [hatom]; rfl)

/-! ### Fields in fields -/

/-- **There is no field in a field, after shaping either.** -/
theorem document?_eq_none_of_field {name outer : String} {body d : Expr}
    (h : (field name body).shaped = some d) : d.document? (some outer) = none := by
  have hoperands {es : List Expr} {ds : List Expr} (hes : ∀ e ∈ es, sizeOf e < sizeOf body)
      (hds : es.filterMap (fun e => (field name e).shaped) = ds) :
      ∀ d ∈ ds, d.document? (some outer) = none := by
    intro d hd
    obtain ⟨e, he, hed⟩ := List.mem_filterMap.1 (hds ▸ hd)
    have := hes e he
    exact document?_eq_none_of_field hed
  cases body with
  | group es =>
    rw [shaped_field_group] at h
    cases hds : es.filterMap fun e => (field name e).shaped with
    | nil => simp [hds, gather] at h
    | cons d' ds =>
      rw [hds] at h
      cases h
      have hnone := hoperands (fun e he => sizeOf_lt_of_mem_children he) hds
      rw [document?_group, mapM_eq_none_of_forall (List.cons_ne_nil _ _) fun e he =>
        clause?_eq_none_iff.2 (hnone e he)]
      rfl
  | synonyms es =>
    rw [shaped_field_synonyms] at h
    cases hds : es.filterMap fun e => (field name e).shaped with
    | nil => simp [hds, gather] at h
    | cons d' ds =>
      rw [hds] at h
      cases h
      have hnone := hoperands (fun e he => sizeOf_lt_of_mem_children he) hds
      rw [document?_synonyms, mapM_eq_none_of_forall (List.cons_ne_nil _ _) hnone]
      rfl
  | boost inner =>
    rw [shaped_field_boost] at h
    obtain ⟨d, hd, rfl⟩ := Option.map_eq_some_iff.1 h
    rw [document?_boost, document?_eq_none_of_field hd]
    rfl
  | plus inner =>
    rw [shaped_field_plus] at h
    obtain ⟨d, hd, rfl⟩ := Option.map_eq_some_iff.1 h
    rw [document?_plus, document?_eq_none_of_field hd]
    rfl
  | minus inner =>
    rw [shaped_field_minus] at h
    obtain ⟨d, hd, rfl⟩ := Option.map_eq_some_iff.1 h
    rw [document?_minus, document?_eq_none_of_field hd]
    rfl
  | _ =>
    rw [shaped_field rfl] at h
    obtain ⟨d, -, rfl⟩ := Option.map_eq_some_iff.1 h
    rfl
termination_by sizeOf body

/-! ### Signs below a field -/

/-- The tree is a search in a field whose body has a sign. -/
def HidesSign : Expr → Prop
  | field _ body => body.kind.isSign = true
  | _ => False

/-- No operand of a group hides its sign. -/
def SignsInSight (e : Expr) : Prop :=
  e.All fun d => d.kind = .group → ∀ c ∈ d.children, ¬ c.HidesSign

/-- No sign stands directly over a group or over alternatives. -/
def SignsAreLow (e : Expr) : Prop :=
  e.All fun d => d.kind.isSign = true → ∀ c ∈ d.children, c.kind ≠ .group ∧ c.kind ≠ .synonyms

/-- What becomes of a tree in a field or in none compiles to the same document and to the same
clause as the tree, except for the signs that fields hide. -/
structure Agrees (scope : Option String) (e d : Expr) : Prop where
  /-- As a tree by itself. -/
  document_iff : d.document? none = e.document? scope ↔
    e.document? scope = none ∨ e.SignsInSight
  /-- As an operand. -/
  clause_iff : d.clause? none = e.clause? scope ↔
    e.document? scope = none ∨ e.SignsInSight ∧ ¬ e.HidesSign
  /-- A sign stays one, and there is no new one unless a field hid it. -/
  occur_eq : e.kind ≠ .field → d.occur = e.occur

section Agrees

variable {scope : Option String} {name : String} {body e d : Expr} {es ds : List Expr}
  {score : Decimal}

/-- Without a sign the document decides about the clause. -/
theorem Agrees.of_document_iff (he : e.kind.isSign = false) (hd : d.kind.isSign = false)
    (hhides : ¬ e.HidesSign)
    (h : d.document? none = e.document? scope ↔ e.document? scope = none ∨ e.SignsInSight) :
    e.Agrees scope d := by
  have hoccur {c : Expr} (hc : c.kind.isSign = false) : c.occur = .should := by
    cases c with
    | plus | minus => cases hc
    | _ => rfl
  refine ⟨h, ?_, fun _ => (hoccur hd).trans (hoccur he).symm⟩
  have hinjective : Function.Injective (Option.map (Prod.mk Occur.should (β := Document))) :=
    Option.map_injective (Prod.mk_right_injective _)
  rw [clause?_of_not_isSign he, clause?_of_not_isSign hd, hinjective.eq_iff, h, and_iff_left hhides]

/-- Of an atom there is nothing to bring together. -/
theorem IsAtom.signsInSight (h : e.IsAtom) : e.SignsInSight := by
  refine .intro (fun hkind => ?_) fun c hc => .intro (fun hkind => ?_) fun b hb => ?_
  · cases e with
    | group => cases h.1
    | _ => cases hkind
  · have hvalue := (h.of_mem_children hc).1
    cases c with
    | group => cases hvalue
    | _ => cases hkind
  · rw [children_of_value?_isSome (h.of_mem_children hc).1] at hb
    cases hb

theorem Agrees.atom (he : e.IsAtom) (scope : Option String) : e.Agrees scope (inScope scope e) := by
  have hdocument : (inScope scope e).document? none = e.document? scope := by
    cases scope <;> rfl
  have hsign : e.kind.isSign = false := by
    cases e with
    | plus | minus => cases he.1
    | _ => rfl
  have hsign' : (inScope scope e).kind.isSign = false := by
    cases scope with
    | none => exact hsign
    | some => rfl
  have hhides : ¬ e.HidesSign := by
    cases e with
    | field => cases he.1
    | _ => exact id
  exact .of_document_iff hsign hsign' hhides
    ⟨fun _ => .inr he.signsInSight, fun _ => hdocument⟩

theorem Agrees.boost (h : body.Agrees scope d) :
    (boost body score).Agrees scope (Expr.boost d score) := by
  have hinjective : Function.Injective (Option.map (Document.boosted · score)) :=
    Option.map_injective fun d d' h => (Document.boost.inj h).1
  refine .of_document_iff rfl rfl id ?_
  rw [document?_boost, document?_boost, hinjective.eq_iff, h.document_iff, Option.map_eq_none_iff]
  simp [SignsInSight, kind]

theorem Agrees.group (h : List.Forall₂ (Agrees scope) es ds) :
    (group es).Agrees scope (Expr.group ds) := by
  have hclauses : ds.mapM (clause? none) = es.mapM (clause? scope) ↔
      es.mapM (clause? scope) = none ∨ ∀ e ∈ es, e.SignsInSight ∧ ¬ e.HidesSign :=
    mapM_eq_mapM_iff (h.imp fun e d h => by rw [clause?_eq_none_iff]; exact h.clause_iff)
  refine .of_document_iff rfl rfl id ?_
  rw [document?_group, document?_group,
    (Option.map_injective Document.ofClauses_injective).eq_iff, hclauses, Option.map_eq_none_iff]
  simp [SignsInSight, kind, children, forall_and, and_comm]

theorem Agrees.synonyms (h : List.Forall₂ (Agrees scope) es ds) :
    (synonyms es).Agrees scope (Expr.synonyms ds) := by
  have hdisjuncts : ds.mapM (document? none) = es.mapM (document? scope) ↔
      es.mapM (document? scope) = none ∨ ∀ e ∈ es, e.SignsInSight :=
    mapM_eq_mapM_iff (h.imp fun e d h => h.document_iff)
  refine .of_document_iff rfl rfl id ?_
  rw [document?_synonyms, document?_synonyms,
    (Option.map_injective Document.ofDisjuncts_injective).eq_iff, hdisjuncts,
    Option.map_eq_none_iff]
  simp [SignsInSight, kind]

/-- A sign makes a requirement or an exclusion of what is below it. -/
theorem exists_occur_of_sign {sign : Expr → Expr} (hsign : sign = plus ∨ sign = minus) :
    ∃ occur : Occur, ∀ scope e,
      (sign e).document? scope = (e.document? scope).map (fun d => .boolean [(occur, d)]) ∧
      (sign e).clause? scope = (e.document? scope).map (occur, ·) ∧ (sign e).occur = occur := by
  rcases hsign with rfl | rfl
  · exact ⟨.must, fun _ _ => ⟨document?_plus, rfl, rfl⟩⟩
  · exact ⟨.mustNot, fun _ _ => ⟨document?_minus, rfl, rfl⟩⟩

/-- A sign that is in sight says the same about both. -/
theorem Agrees.sign {sign : Expr → Expr} (hsign : sign = plus ∨ sign = minus)
    (h : body.Agrees scope d) : (sign body).Agrees scope (sign d) := by
  obtain ⟨occur, hoccur⟩ := exists_occur_of_sign hsign
  have hsingle : Function.Injective (Option.map fun d => Document.boolean [(occur, d)]) :=
    Option.map_injective fun d d' h => by simpa using h
  have hclause : Function.Injective (Option.map (Prod.mk (β := Document) occur)) :=
    Option.map_injective (Prod.mk_right_injective _)
  have hsight : (sign body).SignsInSight ↔ body.SignsInSight := by
    rcases hsign with rfl | rfl <;> simp [SignsInSight, kind]
  have hhides : ¬ (sign body).HidesSign := by
    rcases hsign with rfl | rfl <;> exact id
  refine ⟨?_, ?_, fun _ => (hoccur none d).2.2.trans (hoccur none body).2.2.symm⟩
  · rw [(hoccur none d).1, (hoccur scope body).1, hsingle.eq_iff, h.document_iff,
      Option.map_eq_none_iff, hsight]
  · rw [(hoccur none d).2.1, (hoccur scope body).2.1, hclause.eq_iff, h.document_iff,
      (hoccur scope body).1, Option.map_eq_none_iff, hsight, and_iff_left hhides]

/-- A tree without a document agrees with trees that have none either. -/
theorem Agrees.of_eq_none (hkind : e.kind = .field) (he : e.document? scope = none)
    (hd : d.document? none = none) : e.Agrees scope d :=
  ⟨⟨fun _ => .inl he, fun _ => hd.trans he.symm⟩,
    ⟨fun _ => .inl he, fun _ => (clause?_eq_none_iff.2 hd).trans (clause?_eq_none_iff.2 he).symm⟩,
    fun h => absurd hkind h⟩

/-- A field in no field is its body in that field, except that it hides the sign of the body. -/
theorem Agrees.field (h : body.Agrees (some name) d) : (field name body).Agrees none d := by
  have hsight : (Expr.field name body).SignsInSight ↔ body.SignsInSight := by
    simp [SignsInSight, kind]
  have hdocument : d.document? none = (Expr.field name body).document? none ↔
      (Expr.field name body).document? none = none ∨ (Expr.field name body).SignsInSight := by
    rw [document?_field_none, hsight]
    exact h.document_iff
  by_cases hnone : (Expr.field name body).document? none = none
  · exact .of_eq_none rfl hnone ((hdocument.2 (.inl hnone)).trans hnone)
  have hfield : body.kind ≠ .field := by
    intro hkind
    cases body with
    | field => exact hnone rfl
    | _ => cases hkind
  refine ⟨hdocument, ?_, fun hkind => absurd rfl hkind⟩
  by_cases hsign : body.kind.isSign = true
  · have hoccur : d.occur ≠ .should := by
      rw [h.occur_eq hfield]
      cases body with
      | plus | minus => exact Occur.noConfusion
      | _ => cases hsign
    refine ⟨fun heq => ?_, fun hor => absurd hsign (hor.resolve_left hnone).2⟩
    obtain ⟨q, hq⟩ := Option.ne_none_iff_exists'.1 hnone
    rw [clause?_of_not_isSign (e := Expr.field name body) rfl, hq, clause?] at heq
    obtain ⟨q', -, hpair⟩ := Option.map_eq_some_iff.1 heq
    exact absurd (congrArg Prod.fst hpair) hoccur
  · have hclause : (Expr.field name body).clause? none = body.clause? (some name) := by
      rw [clause?_of_not_isSign rfl, clause?_of_not_isSign (by simpa using hsign),
        document?_field_none]
    have hhides : ¬ body.HidesSign := by
      cases body with
      | field => exact absurd rfl hfield
      | _ => exact id
    have hhides' : ¬ (Expr.field name body).HidesSign := hsign
    rw [hclause, h.clause_iff, document?_field_none, hsight, and_iff_left hhides,
      and_iff_left hhides']

/-- What becomes of a tree agrees with it. -/
def ShapesAlike (scope : Option String) (e : Expr) : Prop :=
  ∃ d, (inScope scope e).shaped = some d ∧ e.Agrees scope d

theorem exists_gather_agrees (make : List Expr → Expr) (hes : es ≠ [])
    (h : ∀ e ∈ es, e.ShapesAlike scope) :
    ∃ ds, gather make (es.filterMap fun e => (inScope scope e).shaped) = some (make ds) ∧
      List.Forall₂ (Agrees scope) es ds := by
  obtain ⟨ds, hds, hforall⟩ := exists_filterMap_eq h
  have hne : ds ≠ [] := fun hnil => hes (List.forall₂_nil_right_iff.1 (hnil ▸ hforall))
  exact ⟨ds, by rw [hds, gather_of_ne_nil hne], hforall⟩

theorem ShapesAlike.sign {sign : Expr → Expr} (hsign : sign = plus ∨ sign = minus)
    (hgroup : body.kind ≠ .group) (hsynonyms : body.kind ≠ .synonyms) (h : body.ShapesAlike scope) :
    (sign body).ShapesAlike scope := by
  obtain ⟨d, hd, hagrees⟩ := h
  refine ⟨sign d, ?_, hagrees.sign hsign⟩
  rcases hsign with rfl | rfl
  · rw [shaped_inScope_plus hgroup, hd]
    rfl
  · rw [shaped_inScope_minus hgroup hsynonyms, hd]
    rfl

/-- A field that is handed down in no field, or one that is refused in another. -/
theorem ShapesAlike.field (h : ∀ name, body.ShapesAlike (some name)) :
    (field name body).ShapesAlike scope := by
  cases scope with
  | none =>
    obtain ⟨d, hd, hagrees⟩ := h name
    exact ⟨d, hd, hagrees.field⟩
  | some outer =>
    obtain ⟨d, hd, -⟩ := h name
    have hnone : (Expr.field outer d).document? none = none := document?_eq_none_of_field hd
    have hshaped :
        (inScope (some outer) (Expr.field name body)).shaped = some (.field outer d) := by
      rw [inScope, shaped_field rfl]
      exact congrArg (Option.map _) hd
    exact ⟨_, hshaped, .of_eq_none rfl (document?_field_some outer) hnone⟩

/-- **A field goes to the same places in both.** The shaped tree compiles to the document of the
tree, and to none if the tree has none, unless a group has an operand that hides its sign. -/
theorem Regular.shapesAlike (he : e.Regular) (hlow : e.SignsAreLow) (scope : Option String) :
    e.ShapesAlike scope := by
  induction he generalizing scope with
  | atom hatom => exact ⟨_, shaped_inScope_of_isAtom hatom scope, .atom hatom scope⟩
  | @node e hkind hne _ ih =>
    have hchild (c : Expr) (hc : c ∈ e.children) (scope : Option String) : c.ShapesAlike scope :=
      ih c hc (hlow.child hc) scope
    cases e with
    | group es =>
      obtain ⟨ds, hds, hforall⟩ := exists_gather_agrees group hne fun e he => hchild e he scope
      exact ⟨group ds, shaped_inScope_group.trans hds, .group hforall⟩
    | synonyms es =>
      obtain ⟨ds, hds, hforall⟩ := exists_gather_agrees synonyms hne fun e he => hchild e he scope
      exact ⟨synonyms ds, shaped_inScope_synonyms.trans hds, .synonyms hforall⟩
    | boost body score =>
      obtain ⟨d, hd, hagrees⟩ := hchild body (List.mem_singleton_self _) scope
      refine ⟨boost d score, ?_, .boost hagrees⟩
      rw [shaped_inScope_boost, hd]
      rfl
    | field name body => exact .field (hchild body (List.mem_singleton_self _) <| some ·)
    | plus body =>
      obtain ⟨hgroup, hsynonyms⟩ := hlow.root rfl body (List.mem_singleton_self _)
      exact .sign (.inl rfl) hgroup hsynonyms (hchild body (List.mem_singleton_self _) scope)
    | minus body =>
      obtain ⟨hgroup, hsynonyms⟩ := hlow.root rfl body (List.mem_singleton_self _)
      exact .sign (.inr rfl) hgroup hsynonyms (hchild body (List.mem_singleton_self _) scope)
    | _ => cases hkind

end Agrees

end Expr

end SearchQuery
