import SearchQuery.Processor
import SearchQuery.Proofs.Syntax.Parsing
import SearchQuery.Proofs.Tree.Filled

/-!
# Properties of trees that passes preserve

Whatever the order in which a pass sees the nodes of a tree, a property of trees survives the pass
if it survives the transformation of one node. The argument is made once for both orders, for a
list of passes, and for the processing of a query, so that a property of processed trees is a
matter of what is read and of one node at a time.

## Final replacements

A final replacement is not looked at again, and neither is a node whose kind is ignored. The
property is therefore about whole trees: a transformation preserves it if the replacement has it
at every depth, and a node that is left alone has it already.

## Main definitions

* `Expr.Hereditary` — a property that goes down to children and up from replaced ones
* `Transform.Preserves`, `Pass.Preserves` — a property survives a transformation, or a pass

## Main results

* `Pass.preserves_of_transform` — what survives the transformation survives the pass
* `runPasses_preserves` — what survives each pass survives all of them in a row
* `runPasses_establishes` — what one of the passes brings about and the others keep
* `Processor.processWith_of_parse`, `Processor.exists_processWith_of_parse` — the result for a query
  that can be read
* `Processor.exists_of_processWith` — a processed tree comes from a tree that was read
* `Processor.tree_of_processWith` — what is read and survives each pass holds of processed trees
-/

namespace SearchQuery

/-- The property goes over to the children of a tree, and to a tree that is made of one with the
property by replacing children by trees with the property. -/
structure Expr.Hereditary (P : Expr → Prop) : Prop where
  /-- A child has the property. -/
  child : ∀ {e c : Expr}, P e → c ∈ e.children → P c
  /-- Replaced children may be put back. -/
  mapChildren : ∀ {σ : Type} {e e' : Expr} {f : (c : Expr) → c ∈ e.children → σ → Option Expr × σ}
    {s : σ}, P e → (∀ c hc t d, (f c hc t).1 = some d → P d) →
    (e.mapChildren f s).1 = some e' → P e'

variable {σ : Type} {P : Expr → Prop}

/-- What becomes of a tree with the property has the property. -/
def Transform.Preserves (f : Transform σ) (P : Expr → Prop) : Prop :=
  ∀ ⦃e e' : Expr⦄ ⦃parents : List Kind⦄ ⦃s : σ⦄, P e → (f e parents s).1.tree? = some e' → P e'

namespace Pass

variable {p : Pass σ}

/-- What is left of a tree with the property has the property. -/
def Preserves (p : Pass σ) (P : Expr → Prop) : Prop :=
  ∀ ⦃e e' : Expr⦄ ⦃s : σ⦄, P e → (p.run e s).1 = some e' → P e'

/-! ### One pass -/

section Steps

variable {parents : List Kind} {e d : Expr} {s t : σ}

theorem parentsFirst_of_remove (hignores : p.ignores e.kind = false)
    (h : p.transform e parents s = (.remove, t)) : p.parentsFirst parents e s = (none, t) := by
  rw [parentsFirst, if_neg (by simp [hignores])]
  split <;> rename_i heq <;> cases heq.symm.trans h
  rfl

theorem parentsFirst_of_keep (hignores : p.ignores e.kind = false)
    (h : p.transform e parents s = (.keep d, t)) :
    p.parentsFirst parents e s =
      d.mapChildren (fun c _ s => p.parentsFirst (parents ++ [d.kind]) c s) t := by
  rw [parentsFirst, if_neg (by simp [hignores])]
  split <;> rename_i heq <;> cases heq.symm.trans h
  rfl

theorem exists_childrenFirst_eq (hignores : p.ignores e.kind = false)
    (h : (e.mapChildren (fun c _ s => p.childrenFirst (parents ++ [e.kind]) c s) s).1 = some d) :
    ∃ t, (p.childrenFirst parents e s).1 = (p.transform d parents t).1.tree? := by
  rw [childrenFirst, if_neg (by simp [hignores])]
  split
  · rename_i t hnone
    cases (congrArg Prod.fst hnone).symm.trans h
  · rename_i d' t hsome
    cases (congrArg Prod.fst hsome).symm.trans h
    exact ⟨t, rfl⟩

end Steps

theorem parentsFirst_preserves (hP : Expr.Hereditary P) (hp : p.transform.Preserves P)
    {parents : List Kind} {e e' : Expr} {s : σ} (he : P e)
    (h : (p.parentsFirst parents e s).1 = some e') : P e' := by
  rw [parentsFirst] at h
  split at h
  · cases h
    exact he
  split at h
  · cases h
  · rename_i d t hfinal
    cases h
    exact hp he (by rw [hfinal]; rfl)
  · rename_i d t hkeep
    have hd : P d := hp he (by rw [hkeep]; rfl)
    refine hP.mapChildren hd (fun c hc t c' hc' => ?_) h
    have hrank : p.rank (parents ++ [d.kind]) c < p.rank parents e :=
      p.descends e parents s d (by rw [hkeep]) c hc
    exact parentsFirst_preserves hP hp (hP.child hd hc) hc'
termination_by p.rank parents e

theorem childrenFirst_preserves (hP : Expr.Hereditary P) (hp : p.transform.Preserves P)
    {parents : List Kind} {e e' : Expr} {s : σ} (he : P e)
    (h : (p.childrenFirst parents e s).1 = some e') : P e' := by
  rw [childrenFirst] at h
  split at h
  · cases h
    exact he
  split at h
  · cases h
  · rename_i d t hmap
    refine hp (hP.mapChildren he (fun c hc t c' hc' => ?_) (congrArg Prod.fst hmap)) h
    have hsize : sizeOf c < sizeOf e := Expr.sizeOf_lt_of_mem_children hc
    exact childrenFirst_preserves hP hp (hP.child he hc) hc'
termination_by sizeOf e

/-- **A property that survives the transformation survives the pass.** -/
theorem preserves_of_transform (hP : Expr.Hereditary P) (hp : p.transform.Preserves P) :
    p.Preserves P := by
  intro e e' s he h
  rw [run] at h
  split at h
  · exact parentsFirst_preserves hP hp he h
  · exact childrenFirst_preserves hP hp he h

end Pass

/-! ### Passes in a row -/

@[simp] theorem runPasses_none (ps : List (Pass Context)) (c : Context) :
    runPasses ps none c = (none, c) := by
  cases ps <;> rfl

theorem runPasses_cons (p : Pass Context) (ps : List (Pass Context)) (e : Expr) (c : Context) :
    runPasses (p :: ps) (some e) c = runPasses ps (p.run e c).1 (p.run e c).2 := rfl

theorem runPasses_append (ps qs : List (Pass Context)) (tree? : Option Expr) (c : Context) :
    runPasses (ps ++ qs) tree? c =
      runPasses qs (runPasses ps tree? c).1 (runPasses ps tree? c).2 := by
  induction ps generalizing tree? c with
  | nil => rfl
  | cons p ps ih =>
    cases tree? with
    | none => simp
    | some e => rw [List.cons_append, runPasses_cons, runPasses_cons, ih]

theorem runPasses_preserves {ps : List (Pass Context)} (hps : ∀ p ∈ ps, p.Preserves P)
    {tree? : Option Expr} {c : Context} {e' : Expr} (he : ∀ e, tree? = some e → P e)
    (h : (runPasses ps tree? c).1 = some e') : P e' := by
  induction ps generalizing tree? c with
  | nil => exact he e' h
  | cons p ps ih =>
    cases tree? with
    | none => cases h
    | some e =>
      refine ih (fun q hq => hps q (List.mem_cons_of_mem p hq)) (fun d hd => ?_) h
      exact hps p List.mem_cons_self (he e rfl) hd

/-- **What one pass brings about stays**, if no pass after it undoes it. The passes before it keep
what it relies on. -/
theorem runPasses_establishes {Q : Expr → Prop} {ps : List (Pass Context)} {p : Pass Context}
    (hmem : p ∈ ps) (hQ : ∀ q ∈ ps, q.Preserves Q) (hP : ∀ q ∈ ps, q.Preserves P)
    (hp : ∀ ⦃e e' c⦄, Q e → (p.run e c).1 = some e' → P e')
    {e e' : Expr} {c : Context} (he : Q e) (h : (runPasses ps (some e) c).1 = some e') : P e' := by
  obtain ⟨before, after, rfl⟩ := List.append_of_mem hmem
  rw [runPasses_append] at h
  have hbefore : ∀ d, (runPasses before (some e) c).1 = some d → Q d := fun d hd =>
    runPasses_preserves (fun q hq => hQ q (List.mem_append_left _ hq))
      (fun _ hd => Option.some.inj hd ▸ he) hd
  generalize (runPasses before (some e) c).2 = c' at h
  cases hleft : (runPasses before (some e) c).1 with
  | none =>
    rw [hleft, runPasses_none] at h
    cases h
  | some d =>
    rw [hleft, runPasses_cons] at h
    exact runPasses_preserves
      (fun q hq => hP q (List.mem_append_right _ (List.mem_cons_of_mem _ hq)))
      (fun d' hd' => hp (hbefore d hleft) hd') h

/-! ### Queries -/

theorem TextStage.apply_empty (stage : TextStage) : stage.apply "" = "" := by
  cases stage <;> decide

/-- A text that is read as a tree is not empty before it is prepared either. -/
theorem ne_empty_of_parse {stages : List TextStage} {query : String} {e : Expr}
    (h : parse (prepare stages query) = .ok (some e)) : query ≠ "" := by
  rintro rfl
  have hempty : prepare stages "" = "" := by
    induction stages with
    | nil => rfl
    | cons stage stages ih =>
      have hfold : prepare (stage :: stages) "" = prepare stages (stage.apply "") := rfl
      rw [hfold, stage.apply_empty] at h ⊢
      exact ih h
  have hnone : parse "" = .ok none := by with_unfolding_all rfl
  rw [hempty, hnone] at h
  cases h

/-- A query that is read is processed, and the passes say with what result. -/
theorem Processor.processWith_of_parse (p : Processor) {query : String} (hint : Option String)
    (languages : List (String × Number.Floating)) {parsed left : Option Expr} {c : Context}
    (hquery : query ≠ "") (hparse : parse (prepare p.text query) = .ok parsed)
    (hpasses : runPasses p.passes parsed
      { p.freshContext languages with
        language := p.detect? (prepare p.text query) <|> p.fallbackLanguage hint } = (left, c)) :
    p.processWith (some query) hint languages = .ok ⟨left, c⟩ := by
  have hsome : (some query).filter (· != "") = some query := by simpa using hquery
  simp only [processWith, hsome, processText, hparse, hpasses]

/-- A query that is read as a tree is processed: its tree and its context are what the passes make
of the tree and of the context in which nothing but the language is known. -/
theorem Processor.exists_processWith_of_parse (p : Processor) {query : String} {t : Expr}
    (hparse : parse (prepare p.text query) = .ok (some t)) (hint : Option String)
    (languages : List (String × Number.Floating)) :
    ∃ processed language, p.processWith (some query) hint languages = .ok processed ∧
      processed.tree =
        (runPasses p.passes (some t) { p.freshContext languages with language }).1 ∧
      processed.context =
        (runPasses p.passes (some t) { p.freshContext languages with language }).2 :=
  ⟨_, _, p.processWith_of_parse hint languages (ne_empty_of_parse hparse) hparse rfl, rfl, rfl⟩

/-- **How a tree comes about**: it is what the passes leave of a tree that is derived from the
tokens of the prepared text. -/
theorem Processor.exists_of_processWith {p : Processor} {query hint : Option String}
    {languages : List (String × Number.Floating)} {processed : Processed}
    (h : p.processWith query hint languages = .ok processed) {e : Expr}
    (he : processed.tree = some e) :
    ∃ ts d c, Derives .expression ts d ∧ (runPasses p.passes (some d) c).1 = some e := by
  rw [processWith] at h
  split at h
  · rw [processText] at h
    dsimp only at h
    split at h
    · cases h
    · rename_i tree? hparse
      cases h
      cases tree? with
      | none =>
        rw [runPasses_none] at he
        cases he
      | some d => exact ⟨_, d, _, derives_of_parseTokens hparse, he⟩
  · cases h
    cases he

/-- **What is read and survives each pass holds of processed trees.** -/
theorem Processor.tree_of_processWith {p : Processor}
    (hread : ∀ ts e, Derives .expression ts e → P e)
    (hp : ∀ q ∈ p.passes, q.Preserves P) {query hint : Option String}
    {languages : List (String × Number.Floating)} {processed : Processed}
    (h : p.processWith query hint languages = .ok processed) {e : Expr}
    (he : processed.tree = some e) : P e := by
  obtain ⟨ts, d, c, hderives, hrun⟩ := exists_of_processWith h he
  exact runPasses_preserves hp (fun _ hd => Option.some.inj hd ▸ hread ts d hderives) hrun

end SearchQuery
