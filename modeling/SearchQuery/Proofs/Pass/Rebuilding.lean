import Mathlib.Data.List.Basic
import SearchQuery.Proofs.Pass.Notes

/-!
# Passes as functions on trees

Most passes note nothing in the record: what they leave of a tree is the answer for its root, and
the record is handed on as it was. The state then need not be carried from child to child, and a
node is replaced by putting the answers for its children into it.

## The state that is read

Such a pass may still look at the state, as the passes that depend on the language of the query do.
The equations below therefore have one state throughout, and a pass that does not look at it has the
same answers in every other one.

## Main definitions

* `Expr.gather` — a group of what is left of its operands, unless nothing is
* `Expr.rebuild` — a node with the answers for its children in their places

## Main results

* `Expr.mapChildren_eq_rebuild` — replacing children without changing the state
* `Pass.parentsFirst_eq_rebuild`, `Pass.childrenFirst_eq_bind` — such a pass at one node
* `Pass.parentsFirst_eq_self` — a pass that keeps every node of a tree leaves the tree alone
-/

namespace SearchQuery

namespace Expr

variable {σ : Type} {g : Expr → Option Expr}

/-! ### One node -/

/-- A group of some trees, if there are any. -/
def gather (make : List Expr → Expr) : List Expr → Option Expr
  | [] => none
  | e :: es => some (make (e :: es))

theorem gather_of_ne_nil {make : List Expr → Expr} {es : List Expr} (h : es ≠ []) :
    gather make es = some (make es) := by
  cases es with
  | nil => exact absurd rfl h
  | cons => rfl

theorem eq_of_gather_eq_some {make : List Expr → Expr} {es : List Expr} {d : Expr}
    (h : gather make es = some d) : make es = d := by
  cases es with
  | nil => cases h
  | cons => exact Option.some.inj h

/-- The node with every child replaced by the answer for it. A group loses the children without an
answer, and any other node is lost with such a child. -/
def rebuild (g : Expr → Option Expr) (e : Expr) : Option Expr :=
  (e.mapChildren (fun c _ u => (g c, u)) ()).1

theorem collect_eq_filterMap {es : List Expr} {f : (c : Expr) → c ∈ es → σ → Option Expr × σ}
    {s : σ} (h : ∀ c hc, f c hc s = (g c, s)) : collect es f s = (es.filterMap g, s) := by
  induction es with
  | nil => rfl
  | cons e es ih =>
    have hrest := @ih (fun c hc => f c (List.mem_cons_of_mem e hc)) fun c hc => h c _
    rw [collect, h]
    simp only [hrest]
    cases he : g e <;> simp [he]

theorem mapChildren_group {es : List Expr}
    {f : (c : Expr) → c ∈ (group es).children → σ → Option Expr × σ} {s : σ}
    (h : ∀ c hc, f c hc s = (g c, s)) :
    (group es).mapChildren f s = (gather group (es.filterMap g), s) := by
  have hcollect : collect es f s = (es.filterMap g, s) := collect_eq_filterMap h
  rw [mapChildren.eq_def]
  simp only [hcollect]
  cases es.filterMap g <;> rfl

theorem mapChildren_synonyms {es : List Expr}
    {f : (c : Expr) → c ∈ (synonyms es).children → σ → Option Expr × σ} {s : σ}
    (h : ∀ c hc, f c hc s = (g c, s)) :
    (synonyms es).mapChildren f s = (gather synonyms (es.filterMap g), s) := by
  have hcollect : collect es f s = (es.filterMap g, s) := collect_eq_filterMap h
  rw [mapChildren.eq_def]
  simp only [hcollect]
  cases es.filterMap g <;> rfl

section Constructors

variable {v name : String} {body left right : Expr} {es : List Expr} {il ir : Bool}
  {score : Decimal} {distance : UInt32}

@[simp] theorem rebuild_word : (word v).rebuild g = some (word v) := rfl

@[simp] theorem rebuild_phrase : (phrase v).rebuild g = some (phrase v) := rfl

@[simp] theorem rebuild_regex : (regex v).rebuild g = some (regex v) := rfl

@[simp] theorem rebuild_doi : (doi v).rebuild g = some (doi v) := rfl

@[simp] theorem rebuild_url : (url v).rebuild g = some (url v) := rfl

@[simp] theorem rebuild_field : (field name body).rebuild g = (g body).map (field name) := rfl

@[simp] theorem rebuild_group : (group es).rebuild g = gather group (es.filterMap g) :=
  congrArg Prod.fst (mapChildren_group fun _ _ => rfl)

@[simp] theorem rebuild_synonyms : (synonyms es).rebuild g = gather synonyms (es.filterMap g) :=
  congrArg Prod.fst (mapChildren_synonyms fun _ _ => rfl)

@[simp] theorem rebuild_range : (range left right il ir).rebuild g =
    (g left).bind fun left => (g right).map (range left · il ir) := by
  rw [rebuild, mapChildren]
  cases g left <;> rfl

@[simp] theorem rebuild_boost : (boost body score).rebuild g = (g body).map (boost · score) := rfl

@[simp] theorem rebuild_fuzzy : (fuzzy body score).rebuild g = (g body).map (fuzzy · score) := rfl

@[simp] theorem rebuild_proximity :
    (proximity body distance).rebuild g = (g body).map (proximity · distance) := rfl

@[simp] theorem rebuild_plus : (plus body).rebuild g = (g body).map plus := rfl

@[simp] theorem rebuild_minus : (minus body).rebuild g = (g body).map minus := rfl

end Constructors

/-- **Replacing the children of a node without changing the state.** -/
theorem mapChildren_eq_rebuild {e : Expr} {f : (c : Expr) → c ∈ e.children → σ → Option Expr × σ}
    {s : σ} (h : ∀ c hc, f c hc s = (g c, s)) : e.mapChildren f s = (e.rebuild g, s) := by
  cases e with
  | word | phrase | regex | doi | url => rfl
  | group es => rw [mapChildren_group h, rebuild_group]
  | synonyms es => rw [mapChildren_synonyms h, rebuild_synonyms]
  | range left right il ir =>
    have hright := h right (by simp [children])
    rw [mapChildren, h left (by simp [children]), rebuild_range]
    cases g left with
    | none => rfl
    | some => simp [hright]
  | field body | boost body | fuzzy body | proximity body | plus body | minus body =>
    rw [mapChildren, h _ (List.mem_singleton_self _)]
    rfl

/-- Answers that do not depend on the state are put together in the same way, whatever becomes of
the state on the way from child to child. -/
theorem fst_mapChildren {e : Expr} {f : (c : Expr) → c ∈ e.children → σ → Option Expr × σ}
    {s : σ} (h : ∀ c hc s, (f c hc s).1 = g c) : (e.mapChildren f s).1 = e.rebuild g := by
  have hblind := @mapChildren_map_state σ Unit e f (fun c _ u => (g c, u)) (fun _ => ()) s
    fun c hc t => Prod.ext (h c hc t).symm rfl
  exact (congrArg Prod.fst hblind).symm

theorem rebuild_congr {g' : Expr → Option Expr} {e : Expr} (h : ∀ c ∈ e.children, g c = g' c) :
    e.rebuild g = e.rebuild g' := by
  rw [rebuild, mapChildren_eq_rebuild fun c hc => by rw [h c hc]]

theorem rebuild_eq_self {e : Expr} (he : e.HasOperands) (h : ∀ c ∈ e.children, g c = some c) :
    e.rebuild g = some e :=
  mapChildren_eq_self he fun c hc _ => h c hc

end Expr

open SearchQuery.Expr

variable {σ : Type}

namespace Pass

variable {p : Pass σ} {parents : List Kind} {e d : Expr} {s t : σ}

/-! ### A node before its children -/

theorem parentsFirst_eq (hp : p.transform.KeepsView (id : σ → σ)) :
    p.parentsFirst parents e s = ((p.parentsFirst parents e s).1, s) :=
  Prod.ext rfl (view_parentsFirst hp parents e s)

/-- **A node that is kept**: the answers for its children are put into it. -/
theorem parentsFirst_eq_rebuild (hp : p.transform.KeepsView (id : σ → σ))
    (hignores : p.ignores e.kind = false) (h : (p.transform e parents s).1 = .keep d) :
    (p.parentsFirst parents e s).1 =
      d.rebuild fun c => (p.parentsFirst (parents ++ [d.kind]) c s).1 := by
  have hkeep : p.transform e parents s = (.keep d, s) := Prod.ext h (hp e parents s)
  have hchildren : d.mapChildren (fun c _ s => p.parentsFirst (parents ++ [d.kind]) c s) s =
      (d.rebuild fun c => (p.parentsFirst (parents ++ [d.kind]) c s).1, s) :=
    mapChildren_eq_rebuild fun c _ => parentsFirst_eq hp
  rw [parentsFirst_of_keep hignores hkeep, hchildren]

/-- A group at the root whose operands are all answered for. -/
theorem run_group_of_keep {α : Type} {es : List Expr} {xs : List α} {f g : α → Expr}
    (horder : p.order = .parentsFirst) (hp : p.transform.KeepsView (id : σ → σ))
    (hignores : p.ignores .group = false)
    (h : (p.transform (group es) [] s).1 = .keep (group (xs.map f))) (hne : xs ≠ [])
    (hg : ∀ x ∈ xs, (p.parentsFirst [.group] (f x) s).1 = some (g x)) :
    p.run (group es) s = (some (group (xs.map g)), s) := by
  have hchildren : (group (xs.map f)).rebuild (fun c => (p.parentsFirst [.group] c s).1) =
      some (group (xs.map g)) := by
    have hanswers : xs.filterMap ((fun c => (p.parentsFirst [.group] c s).1) ∘ f) = xs.map g :=
      List.filterMap_eq_map_iff_forall_eq_some.2 hg
    rw [rebuild_group, List.filterMap_map, hanswers, gather_of_ne_nil (by simpa using hne)]
  have htree : (p.parentsFirst [] (group es) s).1 = some (group (xs.map g)) :=
    (parentsFirst_eq_rebuild (e := group es) hp hignores h).trans hchildren
  rw [run, horder]
  exact (parentsFirst_eq hp).trans (by rw [htree])

theorem parentsFirst_eq_of_final (hignores : p.ignores e.kind = false)
    (h : (p.transform e parents s).1 = .final d) :
    p.parentsFirst parents e s = (some d, (p.transform e parents s).2) := by
  rw [parentsFirst, if_neg (by simp [hignores])]
  split <;> rename_i heq <;> cases (congrArg Prod.fst heq).symm.trans h
  rw [heq]

theorem parentsFirst_of_final (hignores : p.ignores e.kind = false)
    (h : (p.transform e parents s).1 = .final d) : (p.parentsFirst parents e s).1 = some d :=
  congrArg Prod.fst (parentsFirst_eq_of_final hignores h)

/-- A pass that keeps every node of a tree leaves the tree and the state alone. -/
theorem parentsFirst_eq_self {e : Expr}
    (he : e.All fun d => d.HasOperands ∧ ∀ parents s, p.transform d parents s = (.keep d, s))
    (parents : List Kind) (s : σ) : p.parentsFirst parents e s = (some e, s) := by
  induction he generalizing parents with
  | @intro e root _ ih =>
    by_cases hignores : p.ignores e.kind = true
    · rw [parentsFirst, if_pos hignores]
    · rw [parentsFirst_of_keep (by simpa using hignores) (root.2 parents s),
        mapChildren_eq_rebuild fun c hc => ih c hc _, rebuild_eq_self root.1 fun _ _ => rfl]

/-- The answers of a pass that does not look at the state are the same in every state, and so are
those under other nodes if nothing but the nodes' influence on the transformation counts. -/
theorem fst_parentsFirst_congr {R : List Kind → List Kind → Prop} (hp : p.transform.IsStateless)
    (hR : ∀ {ks ks'}, R ks ks' → ∀ e s, p.transform e ks s = p.transform e ks' s)
    (hsnoc : ∀ {ks ks'} (k : Kind), R ks ks' → R (ks ++ [k]) (ks' ++ [k]))
    {parents parents' : List Kind} (h : R parents parents') (e : Expr) (s t : σ) :
    (p.parentsFirst parents e s).1 = (p.parentsFirst parents' e t).1 := by
  by_cases hignores : p.ignores e.kind = true
  · rw [parentsFirst, if_pos hignores, parentsFirst, if_pos hignores]
  have hkinds : p.ignores e.kind = false := by simpa using hignores
  have htransform : p.transform e parents s = ((p.transform e parents' t).1, s) := by
    rw [hp e parents s t, hR h]
  cases houtcome : (p.transform e parents' t).1 with
  | keep d =>
    rw [houtcome] at htransform
    rw [parentsFirst_eq_rebuild hp.keepsView hkinds (congrArg Prod.fst htransform),
      parentsFirst_eq_rebuild hp.keepsView hkinds houtcome]
    refine rebuild_congr fun c hc => ?_
    have hrank : p.rank (parents ++ [d.kind]) c < p.rank parents e :=
      p.descends e parents s d (congrArg Prod.fst htransform) c hc
    exact fst_parentsFirst_congr hp hR hsnoc (hsnoc d.kind h) c s t
  | final d =>
    rw [houtcome] at htransform
    rw [parentsFirst_of_final hkinds (congrArg Prod.fst htransform),
      parentsFirst_of_final hkinds houtcome]
  | remove =>
    rw [houtcome] at htransform
    have hremove : p.transform e parents' t = (.remove, t) := by
      rw [hp e parents' t t, houtcome]
    rw [parentsFirst_of_remove hkinds htransform, parentsFirst_of_remove hkinds hremove]
termination_by p.rank parents e

/-! ### A node after its children -/

/-- **A node whose children have been replaced**: the transformation sees the new node. -/
theorem childrenFirst_eq_bind (hp : p.transform.KeepsView (id : σ → σ))
    (hignores : p.ignores e.kind = false) :
    (p.childrenFirst parents e s).1 =
      (e.rebuild fun c => (p.childrenFirst (parents ++ [e.kind]) c s).1).bind
        fun d => (p.transform d parents s).1.tree? := by
  have hchildren : e.mapChildren
      (fun c _ s => p.childrenFirst (parents ++ [e.kind]) c s) s =
        (e.rebuild fun c => (p.childrenFirst (parents ++ [e.kind]) c s).1, s) :=
    mapChildren_eq_rebuild fun c _ => Prod.ext rfl (view_childrenFirst hp _ c s)
  rw [childrenFirst, if_neg (by simp [hignores]), hchildren]
  cases (e.rebuild fun c => (p.childrenFirst (parents ++ [e.kind]) c s).1) <;> rfl

end Pass

end SearchQuery
