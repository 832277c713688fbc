import SearchQuery.Proofs.Document.Operands
import SearchQuery.Proofs.Pass.Phrases

/-!
# Where added phrases are in a document

A group of words is given the phrase that it spells, then the tree is shaped and simplified, and
then it is compiled. The settings say what is searched for a phrase, and nothing else depends on
them: under other settings the same phrases are in the same places, and the rest of the document is
the same.

## Two documents at once

The search for an added phrase may look like something that the query asks for anyway, so the places
are not those where such a clause is found. They are those where two documents differ that belong to
the same tree under two settings, for whatever settings.

## Texts

A phrase that is printed is no clause of the document but a part of a text. Two documents differ in
a text only where a phrase is printed, and a phrase that is lost with its range is nowhere.

## Main definitions

* `Document.Has` — some part of a document has a property
* `Document.HasClause`, `Document.HasText` — a clause of some combination, a part of some text
* `Document.Alike` — two documents are the same except for added phrases

## Main results

* `Document.Alike.hasClause` — the clauses of the phrases are in the document
* `Expr.leaves_finished` — the tree and its document under two settings
* `Expr.hasText_of_reaches` — what is printed is in a text of the document
-/

namespace SearchQuery

open AddedPhrase

/-- Whether nodes of the kind are neither groups nor signs. -/
def Kind.isPlain : Kind → Bool
  | group | plus | minus => false
  | _ => true

/-! ### The clause of a phrase -/

namespace ExactPhraseSettings

/-- The document of the clause of a phrase. -/
def document (s : ExactPhraseSettings) (a : AddedPhrase) : Document :=
  let near := match s.field with
    | some name => .phrase name (unescape a.phrase) (some s.slop)
    | none => .freeText (Expr.proximity (.phrase a.phrase) s.slop).text
  if (s.weight a.count).sameSize .one then near else near.boosted (s.weight a.count)

variable (s : ExactPhraseSettings)

theorem compile_tidyClauseOf (a : AddedPhrase) :
    (s.tidyClauseOf a).compile = .ok (s.document a) := by
  simp only [tidyClauseOf, tidyClause, document, placed]
  split <;> cases s.field <;> rfl

theorem isPlain_tidyClauseOf (a : AddedPhrase) : (s.tidyClauseOf a).kind.isPlain = true := by
  simp only [tidyClauseOf, tidyClause, placed]
  split <;> cases s.field <;> rfl

end ExactPhraseSettings

/-! ### Parts of documents -/

namespace Document

/-- Some part of the document has the property. -/
inductive Has (P : Document → Prop) : Document → Prop where
  /-- The document itself. -/
  | here {d : Document} (h : P d) : Has P d
  /-- A part of a clause. -/
  | clause {cs : List (Occur × Document)} {occur : Occur} {d : Document} (hd : (occur, d) ∈ cs)
      (h : Has P d) : Has P (boolean cs)
  /-- A part of an alternative. -/
  | best {ds : List Document} {d : Document} (hd : d ∈ ds) (h : Has P d) : Has P (best ds)
  /-- A part of what has a weight. -/
  | boost {d : Document} {score : String} (h : Has P d) : Has P (boost d score)

/-- The document has the clause in some combination. -/
def HasClause (c : Occur × Document) (d : Document) : Prop :=
  d.Has fun d => ∃ cs, d = boolean cs ∧ c ∈ cs

/-- The characters are in some text of the document. -/
def HasText (cs : List Char) (d : Document) : Prop :=
  d.Has fun d => ∃ v, d = freeText v ∧ cs <:+: v.toList

/-- A clause of the combination. -/
theorem hasClause_of_mem {c : Occur × Document} {cs : List (Occur × Document)} (h : c ∈ cs) :
    (boolean cs).HasClause c :=
  .here ⟨cs, rfl, h⟩

/-- More clauses. -/
theorem HasClause.cons {c : Occur × Document} {cs : List (Occur × Document)}
    (h : (boolean cs).HasClause c) (b : Occur × Document) : (boolean (b :: cs)).HasClause c := by
  cases h with
  | here h =>
    obtain ⟨_, ⟨⟩, hc⟩ := h
    exact hasClause_of_mem (List.mem_cons_of_mem b hc)
  | clause hd h => exact .clause (List.mem_cons_of_mem b hd) h

end Document

/-! ### Documents that differ in phrases -/

namespace Document

variable {f f' : AddedPhrase → Document}

/-- Two documents are the same, except that the clauses of some phrases are those of `f` in the
first one and those of `f'` in the second, and that texts with phrases in them may be different. -/
inductive Alike (f f' : AddedPhrase → Document) :
    List AddedPhrase → Document → Document → Prop where
  /-- They are the same. -/
  | same (d : Document) : Alike f f' [] d d
  /-- They are texts in which a phrase is printed. -/
  | text {a : AddedPhrase} (ha : a.occur? = none) (v v' : String) :
      Alike f f' [a] (freeText v) (freeText v')
  /-- They have the same weight. -/
  | boost {ps : List AddedPhrase} {d d' : Document} (score : String) (h : Alike f f' ps d d') :
      Alike f f' ps (boost d score) (boost d' score)
  /-- They combine clauses that are alike and take the same part. -/
  | clause {ps qs : List AddedPhrase} {d d' : Document} {cs cs' : List (Occur × Document)}
      (occur : Occur) (h : Alike f f' ps d d') (hs : Alike f f' qs (boolean cs) (boolean cs')) :
      Alike f f' (ps ++ qs) (boolean ((occur, d) :: cs)) (boolean ((occur, d') :: cs'))
  /-- They have a phrase in the same place. -/
  | phrase {ps : List AddedPhrase} {cs cs' : List (Occur × Document)} {a : AddedPhrase}
      {occur : Occur} (ha : a.occur? = some occur) (hs : Alike f f' ps (boolean cs) (boolean cs')) :
      Alike f f' (a :: ps) (boolean ((occur, f a) :: cs)) (boolean ((occur, f' a) :: cs'))
  /-- A phrase that is printed has no place of its own. -/
  | printed {ps : List AddedPhrase} {d d' : Document} {a : AddedPhrase} (ha : a.occur? = none)
      (h : Alike f f' ps d d') : Alike f f' (a :: ps) d d'

namespace Alike

variable {ps qs : List AddedPhrase} {as as' bs bs' cs cs' : List (Occur × Document)}
  {d d' : Document}

/-- Clauses side by side. -/
theorem append (h : (boolean as).Alike f f' ps (boolean as'))
    (hs : (boolean bs).Alike f f' qs (boolean bs')) :
    (boolean (as ++ bs)).Alike f f' (ps ++ qs) (boolean (as' ++ bs')) := by
  generalize hleft : boolean as = d at h
  generalize hright : boolean as' = d' at h
  induction h generalizing as as' with
  | same d =>
    cases hleft
    cases hright
    induction as with
    | nil => exact hs
    | cons c as ih => exact .clause c.1 (.same c.2) ih
  | text | boost => cases hleft
  | clause occur h _ _ ih =>
    cases hleft
    cases hright
    rw [List.append_assoc]
    exact .clause occur h (ih rfl rfl)
  | phrase ha _ ih =>
    cases hleft
    cases hright
    exact .phrase ha (ih rfl rfl)
  | printed ha _ ih => exact .printed ha (ih hleft hright)

/-- Phrases that are printed have no places of their own. -/
theorem append_printed (hps : ∀ a ∈ ps, a.occur? = none) (h : d.Alike f f' qs d') :
    d.Alike f f' (ps ++ qs) d' := by
  induction ps with
  | nil => exact h
  | cons a ps ih =>
    obtain ⟨ha, hps⟩ := List.forall_mem_cons.1 hps
    exact .printed ha (ih hps)

/-- Texts in which some phrases are printed. -/
theorem text_of_ne_nil (hne : ps ≠ []) (hps : ∀ a ∈ ps, a.occur? = none) (v v' : String) :
    (freeText v).Alike f f' ps (freeText v') := by
  rw [← List.dropLast_concat_getLast hne]
  exact append_printed (fun a ha => hps a (List.dropLast_subset ps ha))
    (.text (hps _ (List.getLast_mem hne)) v v')

/-- Combinations of clauses, of which there may be none. -/
theorem ofClauses (h : (boolean cs).Alike f f' ps (boolean cs')) :
    (ofClauses cs).Alike f f' ps (Document.ofClauses cs') := by
  generalize hleft : boolean cs = d at h
  generalize hright : boolean cs' = d' at h
  induction h with
  | same d =>
    cases hleft
    cases hright
    exact .same _
  | text | boost => cases hleft
  | clause occur h hs =>
    cases hleft
    cases hright
    exact .clause occur h hs
  | phrase ha hs =>
    cases hleft
    cases hright
    exact .phrase ha hs
  | printed ha _ ih => exact .printed ha (ih hleft hright)

/-- The clause of each phrase that has one is where the documents differ. -/
theorem hasClause (h : d.Alike f f' ps d') {a : AddedPhrase} {occur : Occur} (ha : a ∈ ps)
    (hoccur : a.occur? = some occur) : d.HasClause (occur, f a) := by
  induction h with
  | same => cases ha
  | text hnone =>
    cases List.mem_singleton.1 ha
    cases hnone.symm.trans hoccur
  | boost _ _ ih => exact .boost (ih ha)
  | clause occur _ _ ih ihs =>
    rcases List.mem_append.1 ha with ha | ha
    · exact .clause List.mem_cons_self (ih ha)
    · exact (ihs ha).cons _
  | phrase hself _ ihs =>
    rcases List.mem_cons.1 ha with rfl | ha
    · cases hself.symm.trans hoccur
      exact hasClause_of_mem List.mem_cons_self
    · exact (ihs ha).cons _
  | printed hnone _ ih =>
    rcases List.mem_cons.1 ha with rfl | ha
    · cases hnone.symm.trans hoccur
    · exact ih ha

end Alike

end Document

namespace Expr

open Document

variable {f f' : AddedPhrase → Document} {ps qs : List AddedPhrase} {d d' : Expr}
  {ds ds' es : List Expr}

/-! ### Trees whose documents differ in phrases -/

/-- The clauses of trees side by side, with those of groups among them. -/
def clausesOf (ds : List Expr) : Except Unsupported (List (Occur × Document)) :=
  (spliceGroups ds).mapM (clause compile)

/-- The clauses of the first trees are alike to the clauses of the second ones. -/
def ClausesAlike (f f' : AddedPhrase → Document) (ps : List AddedPhrase) (ds ds' : List Expr) :
    Prop :=
  ∀ cs, clausesOf ds = .ok cs →
    ∃ cs', clausesOf ds' = .ok cs' ∧ (boolean cs).Alike f f' ps (boolean cs')

theorem ClausesAlike.refl (ds : List Expr) : ClausesAlike f f' [] ds ds :=
  fun cs hcs => ⟨cs, hcs, .same _⟩

theorem spliceGroups_append (ds es : List Expr) :
    spliceGroups (ds ++ es) = spliceGroups ds ++ spliceGroups es := by
  fun_induction spliceGroups ds with
  | case1 => rfl
  | case2 inner ds ih => rw [List.cons_append, spliceGroups, ih, List.append_assoc]
  | case3 d ds hgroup ih => rw [List.cons_append, spliceGroups, ih, List.cons_append]; exact hgroup

theorem clausesOf_append_eq_ok_iff {cs : List (Occur × Document)} :
    clausesOf (ds ++ es) = .ok cs ↔
      ∃ as bs, clausesOf ds = .ok as ∧ clausesOf es = .ok bs ∧ as ++ bs = cs := by
  rw [clausesOf, spliceGroups_append, List.mapM_append, bind_eq_ok_iff]
  constructor
  · rintro ⟨as, has, h⟩
    obtain ⟨bs, hbs, h⟩ := bind_eq_ok_iff.1 h
    exact ⟨as, bs, has, hbs, Except.ok.inj h⟩
  · rintro ⟨as, bs, has, hbs, rfl⟩
    exact ⟨as, has, bind_eq_ok_iff.2 ⟨bs, hbs, rfl⟩⟩

theorem ClausesAlike.append (h : ClausesAlike f f' ps ds ds') {es' : List Expr}
    (hs : ClausesAlike f f' qs es es') :
    ClausesAlike f f' (ps ++ qs) (ds ++ es) (ds' ++ es') := by
  intro cs hcs
  obtain ⟨as, bs, has, hbs, rfl⟩ := clausesOf_append_eq_ok_iff.1 hcs
  obtain ⟨as', has', halike⟩ := h as has
  obtain ⟨bs', hbs', halikes⟩ := hs bs hbs
  exact ⟨as' ++ bs', clausesOf_append_eq_ok_iff.2 ⟨as', bs', has', hbs', rfl⟩,
    halike.append halikes⟩

theorem ClausesAlike.append_printed (h : ClausesAlike f f' qs ds ds')
    (hps : ∀ a ∈ ps, a.occur? = none) : ClausesAlike f f' (ps ++ qs) ds ds' := by
  intro cs hcs
  obtain ⟨cs', hcs', halike⟩ := h cs hcs
  exact ⟨cs', hcs', .append_printed hps halike⟩

/-- The document of the first tree is alike to that of the second one, and so are their clauses in a
group. -/
structure DocumentAlike (f f' : AddedPhrase → Document) (ps : List AddedPhrase) (d d' : Expr) :
    Prop where
  /-- As trees by themselves. -/
  document : ∀ q, d.compile = .ok q → ∃ q', d'.compile = .ok q' ∧ q.Alike f f' ps q'
  /-- In a group. -/
  clauses : ClausesAlike f f' ps [d] [d']

theorem DocumentAlike.refl (d : Expr) : DocumentAlike f f' [] d d :=
  ⟨fun q hq => ⟨q, hq, .same q⟩, .refl _⟩

theorem clausesOf_singleton_eq_ok_iff (hd : d.kind ≠ .group) {cs : List (Occur × Document)} :
    clausesOf [d] = .ok cs ↔ ∃ c, clause compile d = .ok c ∧ [c] = cs := by
  have hsplice : spliceGroups [d] = [d] := by
    cases d with
    | group => exact absurd rfl hd
    | _ => rfl
  rw [clausesOf, hsplice, List.mapM_cons, bind_eq_ok_iff]
  exact exists_congr fun c => and_congr_right fun _ => ⟨Except.ok.inj, congrArg Except.ok⟩

/-- What is neither a group nor signed is an operand as it is. -/
theorem of_isPlain (hd : d.kind.isPlain = true) :
    d.kind ≠ .group ∧ d.occur = .should ∧ d.unsigned = d := by
  cases d with
  | group | plus | minus => cases hd
  | _ => exact ⟨Kind.noConfusion, rfl, rfl⟩

theorem clausesOf_of_isPlain (hd : d.kind.isPlain = true) {cs : List (Occur × Document)} :
    clausesOf [d] = .ok cs ↔ ∃ q, d.compile = .ok q ∧ [(.should, q)] = cs := by
  obtain ⟨hgroup, hoccur, hunsigned⟩ := of_isPlain hd
  rw [clausesOf_singleton_eq_ok_iff hgroup]
  constructor
  · rintro ⟨⟨occur, q⟩, hc, rfl⟩
    obtain ⟨rfl, hq⟩ := clause_eq_ok_iff.1 hc
    exact ⟨q, hunsigned ▸ hq, by rw [hoccur]⟩
  · rintro ⟨q, hq, rfl⟩
    exact ⟨_, clause_eq_ok_iff.2 ⟨hoccur, hunsigned.symm ▸ hq⟩, rfl⟩

/-- A tree that is neither a group nor signed has its document for its clause. -/
theorem DocumentAlike.of_document (hd : d.kind.isPlain = true) (hd' : d'.kind.isPlain = true)
    (h : ∀ q, d.compile = .ok q → ∃ q', d'.compile = .ok q' ∧ q.Alike f f' ps q') :
    DocumentAlike f f' ps d d' := by
  refine ⟨h, fun cs hcs => ?_⟩
  obtain ⟨q, hq, rfl⟩ := (clausesOf_of_isPlain hd).1 hcs
  obtain ⟨q', hq', halike⟩ := h q hq
  refine ⟨_, (clausesOf_of_isPlain hd').2 ⟨q', hq', rfl⟩, ?_⟩
  rw [← List.append_nil ps]
  exact .clause .should halike (.same _)

theorem DocumentAlike.group (h : ClausesAlike f f' ps ds ds') :
    DocumentAlike f f' ps (group (spliceGroups ds)) (group (spliceGroups ds')) := by
  have hcompile (es : List Expr) :
      compile (Expr.group (spliceGroups es)) = do return ofClauses (← clausesOf es) := by
    rw [compile, compileOperands_eq_mapM, clausesOf]
  have hclauses (es : List Expr) : clausesOf [Expr.group (spliceGroups es)] = clausesOf es := by
    simp [clausesOf, spliceGroups]
  refine ⟨fun q hq => ?_, fun cs hcs => ?_⟩
  · rw [hcompile] at hq
    obtain ⟨cs, hcs, hq⟩ := bind_eq_ok_iff.1 hq
    obtain ⟨cs', hcs', halike⟩ := h cs hcs
    cases hq
    exact ⟨_, by rw [hcompile, hcs']; rfl, halike.ofClauses⟩
  · rw [hclauses] at hcs
    rw [hclauses]
    exact h cs hcs

theorem DocumentAlike.boost (h : DocumentAlike f f' ps d d') (score : Decimal) :
    DocumentAlike f f' ps (boost d score) (Expr.boost d' score) := by
  refine .of_document rfl rfl fun q hq => ?_
  obtain ⟨q, hq, hboosted⟩ := bind_eq_ok_iff.1 hq
  obtain ⟨q', hq', halike⟩ := h.document q hq
  cases hboosted
  exact ⟨_, bind_eq_ok_iff.2 ⟨q', hq', rfl⟩, halike.boost _⟩

theorem DocumentAlike.plus (h : DocumentAlike f f' ps d d') :
    DocumentAlike f f' ps (plus d) (Expr.plus d') := by
  have hsingle {q q' : Document} (halike : q.Alike f f' ps q') :
      (Document.boolean [(.must, q)]).Alike f f' ps (.boolean [(.must, q')]) := by
    rw [← List.append_nil ps]
    exact .clause .must halike (.same _)
  refine ⟨fun q hq => ?_, fun cs hcs => ?_⟩
  · obtain ⟨q, hq, hsigned⟩ := bind_eq_ok_iff.1 hq
    obtain ⟨q', hq', halike⟩ := h.document q hq
    cases hsigned
    exact ⟨_, bind_eq_ok_iff.2 ⟨q', hq', rfl⟩, hsingle halike⟩
  · obtain ⟨⟨occur, q⟩, hc, rfl⟩ := (clausesOf_singleton_eq_ok_iff Kind.noConfusion).1 hcs
    obtain ⟨rfl, hq⟩ := clause_eq_ok_iff.1 hc
    obtain ⟨q', hq', halike⟩ := h.document q hq
    refine ⟨[(.must, q')], (clausesOf_singleton_eq_ok_iff Kind.noConfusion).2 ⟨_, ?_, rfl⟩, ?_⟩
    · exact clause_eq_ok_iff.2 ⟨rfl, hq'⟩
    · exact hsingle halike

theorem compile_of_isPrinted (hd : isPrinted d.kind = true) :
    d.compile = .ok (.freeText d.text) := by
  cases d with
  | range | fuzzy | proximity => rfl
  | _ => cases hd

/-- Texts in which some phrases are printed. -/
theorem DocumentAlike.text (hne : ps ≠ []) (hps : ∀ a ∈ ps, a.occur? = none)
    (hd : isPrinted d.kind = true) (hd' : isPrinted d'.kind = true) :
    DocumentAlike f f' ps d d' := by
  have hplain {c : Expr} (hc : isPrinted c.kind = true) : c.kind.isPlain = true := by
    cases c with
    | range | fuzzy | proximity => rfl
    | _ => cases hc
  refine .of_document (hplain hd) (hplain hd') fun q hq => ?_
  cases (compile_of_isPrinted hd).symm.trans hq
  exact ⟨_, compile_of_isPrinted hd', .text_of_ne_nil hne hps _ _⟩

theorem clausesOf_signed {q : Document} (required : Bool) (hd : d.kind.isPlain = true)
    (h : d.compile = .ok q) :
    clausesOf [signed required d] = .ok [(if required then .must else .should, q)] := by
  cases required with
  | false => exact (clausesOf_of_isPlain hd).2 ⟨_, h, rfl⟩
  | true =>
    exact (clausesOf_singleton_eq_ok_iff Kind.noConfusion).2
      ⟨(.must, q), clause_eq_ok_iff.2 ⟨rfl, h⟩, rfl⟩

/-- The clauses of a phrase. -/
theorem ClausesAlike.phrase {a : AddedPhrase} (required : Bool)
    (ha : a.place = .ofRequired required) (hd : d.kind.isPlain = true)
    (hd' : d'.kind.isPlain = true) (h : d.compile = .ok (f a)) (h' : d'.compile = .ok (f' a)) :
    ClausesAlike f f' [a] [signed required d] [signed required d'] := by
  intro cs hcs
  cases (clausesOf_signed required hd h).symm.trans hcs
  refine ⟨_, clausesOf_signed required hd' h', .phrase ?_ (.same _)⟩
  rw [occur?, ha]
  cases required <;> rfl

/-! ### What is left of a tree -/

/-- Of two trees something is left, with documents that are alike, or nothing, and then no phrase
had a clause. -/
inductive LeavesAlike (f f' : AddedPhrase → Document) :
    List AddedPhrase → Option Expr → Option Expr → Prop where
  /-- Nothing is left of either. -/
  | none {ps : List AddedPhrase} (hps : ∀ a ∈ ps, a.occur? = .none) : LeavesAlike f f' ps none none
  /-- Something is left of both. -/
  | some {ps : List AddedPhrase} {d d' : Expr} (h : DocumentAlike f f' ps d d') :
      LeavesAlike f f' ps (some d) (some d')

variable {x x' : Option Expr}

theorem LeavesAlike.refl : (x : Option Expr) → LeavesAlike f f' [] x x
  | .none => .none (by simp)
  | .some d => .some (.refl d)

theorem LeavesAlike.of_none (h : LeavesAlike f f' ps .none x') : ∀ a ∈ ps, a.occur? = .none := by
  cases h with
  | none hps => exact hps

theorem LeavesAlike.of_some (h : LeavesAlike f f' ps (.some d) x') :
    ∃ d', x' = .some d' ∧ DocumentAlike f f' ps d d' := by
  cases h with
  | some h => exact ⟨_, rfl, h⟩

theorem LeavesAlike.isSome_eq (h : LeavesAlike f f' ps x x') : x.isSome = x'.isSome := by
  cases h <;> rfl

theorem LeavesAlike.map {g : Expr → Expr} (h : LeavesAlike f f' ps x x')
    (hg : ∀ d d', DocumentAlike f f' ps d d' → DocumentAlike f f' ps (g d) (g d')) :
    LeavesAlike f f' ps (x.map g) (x'.map g) := by
  cases h with
  | none hps => exact .none hps
  | some h => exact .some (hg _ _ h)

/-- What is printed has a text with its phrases. -/
theorem LeavesAlike.text (hne : ps ≠ []) (hps : ∀ a ∈ ps, a.occur? = .none)
    (hsome : x.isSome = x'.isSome) (hx : ∀ d, x = .some d → isPrinted d.kind = true)
    (hx' : ∀ d, x' = .some d → isPrinted d.kind = true) : LeavesAlike f f' ps x x' := by
  cases x with
  | none =>
    cases x' with
    | none => exact .none hps
    | some => cases hsome
  | some d =>
    cases x' with
    | none => cases hsome
    | some d' => exact .some (.text hne hps (hx d rfl) (hx' d' rfl))

/-- Operands of which something is left for a part of the document each. -/
theorem clausesAlike_filterMap {X X' : Expr → Option Expr} {places : Expr → List AddedPhrase}
    (h : ∀ e ∈ es, LeavesAlike f f' (places e) (X e) (X' e)) :
    ClausesAlike f f' (es.flatMap places) (es.filterMap X) (es.filterMap X') ∧
      (es.filterMap X = [] → (∀ a ∈ es.flatMap places, a.occur? = none) ∧ es.filterMap X' = []) ∧
      (es.filterMap X' = [] → es.filterMap X = []) := by
  induction es with
  | nil => exact ⟨.refl [], fun _ => ⟨by simp, rfl⟩, fun _ => rfl⟩
  | cons e es ih =>
    obtain ⟨hclauses, hnone, hnone'⟩ := ih fun e he => h e (List.mem_cons_of_mem _ he)
    have he := h e List.mem_cons_self
    rw [List.flatMap_cons]
    generalize places e = ps at he
    cases hX : X e with
    | none =>
      cases hX' : X' e with
      | none =>
        rw [hX, hX'] at he
        rw [List.filterMap_cons_none hX, List.filterMap_cons_none hX']
        refine ⟨hclauses.append_printed he.of_none, fun hnil => ?_, hnone'⟩
        exact ⟨List.forall_mem_append.2 ⟨he.of_none, (hnone hnil).1⟩, (hnone hnil).2⟩
      | some => rw [hX, hX'] at he; cases he
    | some d =>
      cases hX' : X' e with
      | none => rw [hX, hX'] at he; cases he
      | some d' =>
        rw [hX, hX'] at he
        rw [List.filterMap_cons_some hX, List.filterMap_cons_some hX']
        refine ⟨?_, by simp, by simp⟩
        cases he with
        | some halike => exact halike.clauses.append hclauses

theorem LeavesAlike.gather {X X' : Expr → Option Expr} {places : Expr → List AddedPhrase}
    (h : ∀ e ∈ es, LeavesAlike f f' (places e) (X e) (X' e)) :
    LeavesAlike f f' (es.flatMap places)
      (gather (fun ds => group (spliceGroups ds)) (es.filterMap X))
      (gather (fun ds => group (spliceGroups ds)) (es.filterMap X')) := by
  obtain ⟨hclauses, hnone, hnone'⟩ := clausesAlike_filterMap h
  by_cases hnil : es.filterMap X = []
  · obtain ⟨hplaces, hnil'⟩ := hnone hnil
    rw [hnil, hnil']
    exact .none hplaces
  · rw [gather_of_ne_nil hnil, gather_of_ne_nil fun h => hnil (hnone' h)]
    exact .some (.group hclauses)

/-! ### Two settings -/

section Settings

variable {s s' : ExactPhraseSettings} {e : Expr} {required : Bool}

/-- What is left of the tree under two settings, and the documents, are the same except for the
phrases that the tree is given. -/
def FinishesAlike (s s' : ExactPhraseSettings) (required : Bool) (e : Expr) : Prop :=
  LeavesAlike s.document s'.document (e.addedPhrases (.ofRequired required))
    (e.finished s required) (e.finished s' required)

/-- A group that is given a phrase has its clause in both documents. -/
theorem finishesAlike_group_of_some {p : String} (h : addedPhrase? es = some p) :
    (group es).FinishesAlike s s' required := by
  let a : AddedPhrase := ⟨.ofRequired required, p, es.length⟩
  have hclause := ClausesAlike.phrase (a := a) required rfl (s.isPlain_tidyClauseOf a)
    (s'.isPlain_tidyClauseOf a) (s.compile_tidyClauseOf a) (s'.compile_tidyClauseOf a)
  rw [FinishesAlike, finished_group_of_some h, finished_group_of_some h,
    addedPhrases_group_of_some h]
  exact .some (.group ((ClausesAlike.refl _).append hclause))

theorem finishesAlike_group (hes : ∀ c ∈ es, c.FinishesAlike s s' required) :
    (group es).FinishesAlike s s' required := by
  cases h : addedPhrase? es with
  | some p => exact finishesAlike_group_of_some h
  | none =>
    rw [FinishesAlike, finished_group_of_none h, finished_group_of_none h, addedPhrases, h]
    simp only [addedPhrasesAll_eq_flatMap]
    exact .gather hes

/-- A requirement of what is no group is the same in both documents. -/
theorem FinishesAlike.signed (he : e.Filled) (hgroup : e.kind ≠ .group)
    (h : e.FinishesAlike s s' false) : e.FinishesAlike s s' required := by
  cases required with
  | false => exact h
  | true =>
    rw [FinishesAlike, addedPhrases_ofRequired hgroup, finished_true he hgroup,
      finished_true he hgroup]
    exact h.map fun _ _ => DocumentAlike.plus

/-- Whether something is left of what is printed is a matter of its children. -/
theorem isSome_rebuild_congr {g g' : Expr → Option Expr} (hprinted : isPrinted e.kind = true)
    (h : ∀ c ∈ e.children, (g c).isSome = (g' c).isSome) :
    (e.rebuild g).isSome = (e.rebuild g').isSome := by
  cases e with
  | fuzzy | proximity => simpa [children] using h
  | range left right il ir =>
    have hleft := h left (by simp [children])
    have hright := h right (by simp [children])
    rw [rebuild_range, rebuild_range]
    cases hl : g left <;> cases hl' : g' left <;> simp_all
  | _ => cases hprinted

/-- What is printed, by itself. Without phrases in it the same is printed under both settings. -/
theorem finishesAlike_of_isPrinted (he : e.Filled) (hprinted : isPrinted e.kind = true)
    (hchild : ∀ c ∈ e.children, (c.finished s false).isSome = (c.finished s' false).isSome) :
    e.FinishesAlike s s' false := by
  rw [FinishesAlike]
  by_cases hnil : e.addedPhrases (.ofRequired false) = []
  · have hsame : e.finished s false = e.finished s' false := finished_congr he hnil false
    rw [hnil, hsame]
    exact .refl _
  have hkind {r : ExactPhraseSettings} {d : Expr} (hd : e.rebuild (finished r false) = some d) :
      isPrinted d.kind = true := by
    rwa [kind_of_rebuild hd]
  rw [finished_of_isPrinted he hprinted hnil, finished_of_isPrinted he hprinted hnil]
  refine .text hnil (fun a ha => occur?_of_isPrinted hprinted ha) ?_ (fun _ => hkind) fun _ => hkind
  exact isSome_rebuild_congr hprinted hchild

/-- What is no group, by itself. -/
theorem finishesAlike_of_ne_group (he : e.Filled) (hgroup : e.kind ≠ .group)
    (hchild : ∀ c ∈ e.children, ∀ required, c.FinishesAlike s s' required) :
    e.FinishesAlike s s' false := by
  cases e with
  | word | phrase | regex | doi | url =>
    rw [FinishesAlike, finished_of_value?_isSome rfl, finished_of_value?_isSome rfl]
    exact .refl _
  | field | synonyms | minus =>
    rw [FinishesAlike, finished_of_isScoped he rfl, finished_of_isScoped he rfl]
    exact .refl _
  | group => exact absurd rfl hgroup
  | plus inner =>
    rw [FinishesAlike, finished_plus, finished_plus]
    exact hchild inner (List.mem_singleton_self _) true
  | boost body score =>
    rw [FinishesAlike, finished_boost, finished_boost]
    refine (hchild body (List.mem_singleton_self _) false).map fun d d' h => ?_
    split
    · exact h
    · exact h.boost score
  | range | fuzzy | proximity =>
    exact finishesAlike_of_isPrinted he rfl fun c hc => (hchild c hc false).isSome_eq

end Settings

/-- **A tree and its document under two settings.** The same is left of the tree, and the documents
are the same except for the clauses of the phrases that the tree is given, and for texts in which
they are printed. -/
theorem leaves_finished (s s' : ExactPhraseSettings) {e : Expr} (he : e.Filled)
    (required : Bool) : LeavesAlike s.document s'.document (e.addedPhrases (.ofRequired required))
      (e.finished s required) (e.finished s' required) := by
  have hchild (c : Expr) (hc : c ∈ e.children) (required : Bool) :
      c.FinishesAlike s s' required := by
    have hsize : sizeOf c < sizeOf e := sizeOf_lt_of_mem_children hc
    exact leaves_finished s s' (he.child hc) required
  by_cases hgroup : e.kind = .group
  · cases e with
    | group es => exact finishesAlike_group fun c hc => hchild c hc required
    | _ => cases hgroup
  · exact (finishesAlike_of_ne_group he hgroup hchild).signed he hgroup
termination_by sizeOf e

/-! ### Texts -/

theorem chars_isInfix_charsOfAll {es : List Expr} {c : Expr} (hc : c ∈ es) :
    c.chars <:+: charsOfAll es := by
  induction es with
  | nil => cases hc
  | cons e es ih =>
    cases es with
    | nil => exact List.mem_singleton.1 hc ▸ List.infix_rfl
    | cons e' es =>
      rw [charsOfAll]
      · rcases List.mem_cons.1 hc with rfl | hc
        · exact (List.prefix_append _ _).isInfix
        · obtain ⟨front, back, heq⟩ := ih hc
          exact ⟨e.chars ++ ' ' :: front, back, by simp [← heq]⟩
      · exact List.cons_ne_nil _ _

/-- The text of a node has the texts of its children in it. -/
theorem chars_isInfix_of_mem_children {e c : Expr} (hc : c ∈ e.children) :
    c.chars <:+: e.chars := by
  cases e with
  | word | phrase | regex | doi | url => cases hc
  | group es | synonyms es =>
    exact (chars_isInfix_charsOfAll hc).trans ⟨['('], [')'], rfl⟩
  | range left right il ir =>
    simp only [children, List.mem_cons, List.not_mem_nil, or_false] at hc
    rcases hc with rfl | rfl
    · exact ⟨[if il then '[' else '\x7b'],
        " TO ".toList ++ right.chars ++ [if ir then ']' else '\x7d'], by simp [chars]⟩
    · exact ⟨(if il then '[' else '\x7b') :: left.chars ++ " TO ".toList,
        [if ir then ']' else '\x7d'], by simp [chars]⟩
  | field name body =>
    cases List.mem_singleton.1 hc
    exact ⟨name.toList ++ [':'], [], by simp [chars]⟩
  | plus inner | minus inner =>
    cases List.mem_singleton.1 hc
    exact (List.suffix_cons _ _).isInfix
  | boost | fuzzy | proximity =>
    cases List.mem_singleton.1 hc
    exact (List.prefix_append _ _).isInfix

theorem chars_isInfix_of_reaches {e x : Expr} (h : e.Reaches (fun _ => False) (· = x)) :
    x.chars <:+: e.chars := by
  induction h with
  | here _ h => exact h ▸ List.infix_rfl
  | there _ hc _ ih => exact ih.trans (chars_isInfix_of_mem_children hc)

variable {s : ExactPhraseSettings} {a : AddedPhrase}

/-- What is printed is a text with the clause of the phrase in it. -/
theorem hasText_of_prints (h : Prints s a d) {q : Document} (hq : d.compile = .ok q) :
    q.HasText (s.tidyClauseOf a).chars := by
  cases (compile_of_isPrinted h.1).symm.trans hq
  refine .here ⟨_, rfl, ?_⟩
  rw [text, String.toList_ofList]
  exact chars_isInfix_of_reaches h.2

/-- What an operand prints, it prints without its sign. -/
theorem reaches_unsigned {e : Expr} (h : e.Reaches
    (fun d => isOpen d.kind = false ∧ isPrinted d.kind = false) (Prints s a)) :
    e.unsigned.Reaches (fun d => isOpen d.kind = false ∧ isPrinted d.kind = false)
      (Prints s a) := by
  cases e with
  | plus inner =>
    cases h with
    | here _ h => cases h.1
    | there _ hc h => exact List.mem_singleton.1 hc ▸ h
  | minus inner => exact absurd ⟨rfl, rfl⟩ h.not_skips
  | _ => exact h

/-- **Where a phrase that is printed is in the document of a tree**: in one of its texts. -/
theorem hasText_of_reaches {d : Expr} (h : d.Reaches
      (fun d => isOpen d.kind = false ∧ isPrinted d.kind = false) (Prints s a)) {q : Document}
    (hq : d.compile = .ok q) : q.HasText (s.tidyClauseOf a).chars := by
  cases h with
  | here _ h => exact hasText_of_prints h hq
  | @there _ c hskip hc h =>
    have hsize : sizeOf c < sizeOf d := sizeOf_lt_of_mem_children hc
    cases d with
    | group es =>
      rw [compile, compileOperands_eq_mapM] at hq
      obtain ⟨cs, hcs, hq⟩ := bind_eq_ok_iff.1 hq
      obtain ⟨⟨occur, q'⟩, hmem, hclause⟩ := exists_mem_of_mapM hcs hc
      have hsize' : sizeOf c.unsigned ≤ sizeOf c := sizeOf_unsigned_le c
      have htext := hasText_of_reaches (reaches_unsigned h) (clause_eq_ok_iff.1 hclause).2
      cases hq
      rw [ofClauses_of_ne_nil (List.ne_nil_of_mem hmem)]
      exact .clause hmem htext
    | plus inner =>
      cases List.mem_singleton.1 hc
      obtain ⟨q', hq', hq⟩ := bind_eq_ok_iff.1 hq
      cases hq
      exact .clause (List.mem_singleton_self _) (hasText_of_reaches h hq')
    | boost body score =>
      cases List.mem_singleton.1 hc
      obtain ⟨q', hq', hq⟩ := bind_eq_ok_iff.1 hq
      cases hq
      exact .boost (hasText_of_reaches h hq')
    | range | fuzzy | proximity =>
      have hbelow := (h.imp (fun _ => False.elim) fun _ hd => hd.2).join
      exact hasText_of_prints ⟨rfl, .there id hc hbelow⟩ hq
    | _ => simp [isOpen, isPrinted, kind] at hskip
termination_by sizeOf d

end Expr

end SearchQuery
