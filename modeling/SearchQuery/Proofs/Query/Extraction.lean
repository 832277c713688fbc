import SearchQuery.Pass.Markers
import SearchQuery.Pass.Sorting
import SearchQuery.Proofs.Pass.Substitution
import SearchQuery.Proofs.Query.LostFields

/-!
# Taking directives and markers out of a query

The pass over sort directives and the pass over marker words take nodes out of the tree and note
them in the record. With a node goes what cannot be without it: a group that has no operand left,
and any other node that has lost a child. This may go on upwards to the root, and then nothing is
left of the query.

## What is looked at

A pass goes from left to right and looks at a node before its children, so what it notes are the
nodes that it takes out in the order in which they are written. It does not look below a node that
it takes out, nor at the second bound of a range that has lost its first one. Neither matters here:
nothing to take out stands below a directive or a marker, and a second marker changes nothing in the
record. Directives are no bounds.

## Main definitions

* `Expr.isLost` — nothing is left of a tree
* `Expr.thinned`, `Expr.left?` — the tree without the operands that are lost
* `Transform.Extracts` — a transformation that takes nodes out and notes them

## Main results

* `Expr.left?_eq_rebuild` — what is left of a node
* `Pass.parentsFirst_eq_left?` — what such a pass leaves of a tree, and what it notes
* `run_extracts` — both passes on the tree of a query
-/

namespace SearchQuery

open SearchQuery.Expr

namespace Expr

variable {gone : Expr → Bool} {e : Expr}

/-! ### What is lost, and what is left -/

mutual

/-- Nothing is left of the tree. It is taken out itself, or it is a group of which every operand is
lost, or any other node of which a child is lost. -/
def isLost (gone : Expr → Bool) : Expr → Bool
  | .field name body => gone (.field name body) || body.isLost gone
  | .group es => gone (.group es) || areLost gone es
  | .synonyms es => gone (.synonyms es) || areLost gone es
  | .range left right il ir =>
    gone (.range left right il ir) || (left.isLost gone || right.isLost gone)
  | .boost body score => gone (.boost body score) || body.isLost gone
  | .fuzzy term slop => gone (.fuzzy term slop) || term.isLost gone
  | .proximity term slop => gone (.proximity term slop) || term.isLost gone
  | .plus inner => gone (.plus inner) || inner.isLost gone
  | .minus inner => gone (.minus inner) || inner.isLost gone
  | e => gone e

/-- Nothing is left of any of the trees. -/
def areLost (gone : Expr → Bool) : List Expr → Bool
  | [] => true
  | e :: es => e.isLost gone && areLost gone es

end

mutual

/-- The tree without the operands that are lost. -/
def thinned (gone : Expr → Bool) : Expr → Expr
  | .field name body => .field name (body.thinned gone)
  | .group es => .group (thinnedAll gone es)
  | .synonyms es => .synonyms (thinnedAll gone es)
  | .range left right il ir => .range (left.thinned gone) (right.thinned gone) il ir
  | .boost body score => .boost (body.thinned gone) score
  | .fuzzy term slop => .fuzzy (term.thinned gone) slop
  | .proximity term slop => .proximity (term.thinned gone) slop
  | .plus inner => .plus (inner.thinned gone)
  | .minus inner => .minus (inner.thinned gone)
  | e => e

/-- The trees that are not lost, without the operands that are lost. -/
def thinnedAll (gone : Expr → Bool) : List Expr → List Expr
  | [] => []
  | e :: es => if e.isLost gone then thinnedAll gone es else e.thinned gone :: thinnedAll gone es

end

/-- What is left of a tree, if anything is. -/
def left? (gone : Expr → Bool) (e : Expr) : Option Expr :=
  if e.isLost gone then none else some (e.thinned gone)

theorem left?_eq_none_of_gone (h : gone e = true) : e.left? gone = none := by
  rw [left?, if_pos]
  cases e <;> simp [isLost, h]

theorem filterMap_left? (gone : Expr → Bool) (es : List Expr) :
    es.filterMap (left? gone) = thinnedAll gone es := by
  induction es with
  | nil => rfl
  | cons e es ih =>
    rw [thinnedAll, List.filterMap_cons, left?, ih]
    cases e.isLost gone <;> rfl

theorem thinnedAll_eq_nil_iff {es : List Expr} :
    thinnedAll gone es = [] ↔ areLost gone es = true := by
  induction es with
  | nil => simp [thinnedAll, areLost]
  | cons e es ih =>
    rw [thinnedAll, areLost]
    cases he : e.isLost gone <;> simp [ih]

/-- A group of which every operand is lost is lost. -/
theorem gather_left? (make : List Expr → Expr) (es : List Expr) :
    gather make (es.filterMap (left? gone)) =
      if areLost gone es then none else some (make (thinnedAll gone es)) := by
  rw [filterMap_left?]
  by_cases hlost : areLost gone es = true
  · rw [thinnedAll_eq_nil_iff.2 hlost, if_pos hlost]
    rfl
  · rw [gather_of_ne_nil (mt thinnedAll_eq_nil_iff.1 hlost), if_neg hlost]

/-- What is left of a node that stays are the parts that are left of its children. -/
theorem left?_eq_rebuild (h : gone e = false) : e.left? gone = e.rebuild (left? gone) := by
  cases e with
  | word | phrase | regex | doi | url => simp [left?, isLost, thinned, h]
  | group es => rw [rebuild_group, gather_left?, left?, isLost, h, Bool.false_or]; rfl
  | synonyms es => rw [rebuild_synonyms, gather_left?, left?, isLost, h, Bool.false_or]; rfl
  | range left right il ir =>
    rw [rebuild_range, left?, left?, left?, isLost, h, Bool.false_or]
    cases left.isLost gone <;> cases right.isLost gone <;> rfl
  | field _ body | boost body _ | fuzzy body _ | proximity body _ | plus body | minus body =>
    rw [left?, isLost, h, Bool.false_or]
    cases hbody : body.isLost gone <;> simp [left?, hbody, thinned]

theorem left?_of_value?_isSome (hterm : e.value?.isSome = true) (h : gone e = false) :
    e.left? gone = some e := by
  rw [left?_eq_rebuild h, rebuild, mapChildren_of_value?_isSome hterm]

/-- Nothing that is taken out is in what is left, if nodes are taken out whatever operands are lost
below them. -/
theorem all_of_left? {e e' : Expr} (hgone : ∀ e : Expr, gone (e.thinned gone) = gone e)
    (h : e.left? gone = some e') : e'.All fun d => gone d = false := by
  have hstays : gone e = false := by
    by_contra htrue
    cases (left?_eq_none_of_gone (by simpa using htrue)).symm.trans h
  have hthinned : e' = e.thinned gone := by
    rw [left?] at h
    split at h <;> cases h
    rfl
  refine ⟨by rw [hthinned, hgone, hstays], fun d hd => ?_⟩
  rw [left?_eq_rebuild hstays] at h
  obtain ⟨c, hc, t, hleft⟩ := (mapChildren_spec h).2 d hd
  have hsize : sizeOf c < sizeOf e := sizeOf_lt_of_mem_children hc
  exact all_of_left? hgone hleft
termination_by sizeOf e

end Expr

/-! ### Passes -/

variable {σ α : Type}

/-- A node that holds something of a certain sort is taken out and noted, and any other node is kept
as it is. -/
structure Transform.Extracts (t : Transform σ) (take? : Expr → Option α) (note : σ → α → σ) :
    Prop where
  /-- A node is taken out. -/
  remove : ∀ e parents s a, take? e = some a → t e parents s = (.remove, note s a)
  /-- A node is kept. -/
  keep : ∀ e parents s, take? e = none → t e parents s = (.keep e, s)
  /-- Nothing is found below a node that is taken out. -/
  below : ∀ e : Expr, (take? e).isSome = true → ∀ c ∈ e.children, c.found take? = []
  /-- Two terms that are taken out are noted like the first one alone. -/
  term : ∀ (d e : Expr) (a b : α), d.value?.isSome = true → take? d = some a → take? e = some b →
    ∀ s, note (note s a) b = note s a

namespace Pass

variable {p : Pass σ} {take? : Expr → Option α} {note : σ → α → σ}

/-- **What a pass that takes nodes out leaves of a tree, and what it notes.** -/
theorem parentsFirst_eq_left? (hignores : ∀ k, p.ignores k = false)
    (hp : p.transform.Extracts take? note) {parents : List Kind} {e : Expr}
    (he : e.BoundsAreTerms) (s : σ) :
    p.parentsFirst parents e s =
      (e.left? fun d => (take? d).isSome, (e.found take?).foldl note s) := by
  cases htake : take? e with
  | some a =>
    have hgone : (take? e).isSome = true := by simp [htake]
    have hbelow : e.children.flatMap (found take?) = [] :=
      List.flatMap_eq_nil_iff.2 (hp.below e hgone)
    rw [parentsFirst_of_remove (hignores _) (hp.remove e parents s a htake),
      left?_eq_none_of_gone hgone, found_eq, htake, hbelow]
    rfl
  | none =>
    have hstays : (fun d => (take? d).isSome) e = false := by simp [htake]
    rw [parentsFirst_of_keep (hignores _) (hp.keep e parents s htake), left?_eq_rebuild hstays,
      found_eq, htake, Option.toList_none, List.nil_append, List.foldl_flatMap]
    refine mapChildren_eq_foldl (fun c hc s => ?_) fun left right il ir hrange hlost s => ?_
    · have hsize : sizeOf c < sizeOf e := sizeOf_lt_of_mem_children hc
      exact parentsFirst_eq_left? hignores hp (he.child hc) s
    · -- the second bound of a range is not looked at if the first one is taken out
      subst hrange
      have hbounds := he.root rfl
      have hleft : left.value?.isSome = true := hbounds left (by simp [children])
      have hright : right.value?.isSome = true := hbounds right (by simp [children])
      rw [found_of_value?_isSome hleft, found_of_value?_isSome hright]
      cases htaken : take? left with
      | none =>
        have hkept : left.left? (fun d => (take? d).isSome) = some left :=
          left?_of_value?_isSome hleft (by simp [htaken])
        cases hkept.symm.trans hlost
      | some a =>
        cases hnext : take? right with
        | none => rfl
        | some b => exact hp.term left right a b hleft htaken hnext s
termination_by sizeOf e

theorem run_eq_left? (horder : p.order = .parentsFirst) (hignores : ∀ k, p.ignores k = false)
    (hp : p.transform.Extracts take? note) {e : Expr} (he : e.BoundsAreTerms) (s : σ) :
    p.run e s = (e.left? fun d => (take? d).isSome, (e.found take?).foldl note s) := by
  rw [run, horder]
  exact parentsFirst_eq_left? hignores hp he s

end Pass

/-! ### Sort directives -/

namespace SortSettings

theorem extracts (s : SortSettings) :
    s.transform.Extracts s.directive? fun c field =>
      { c with sortOrder := some ⟨field, s.direction⟩ } where
  remove e parents c field h := by simp only [transform, h]
  keep e parents c h := by simp only [transform, h]
  below e h c hc := by
    cases e with
    | field name body =>
      cases List.mem_singleton.1 hc
      cases c with
      | word value => exact found_of_value?_isSome rfl
      | _ => cases h
    | _ => cases h
  term d e field field' hterm h := by
    cases d with
    | field => cases hterm
    | _ => cases h

/-- A node is a directive or not, whatever is lost below it. -/
theorem directive?_thinned (s : SortSettings) (gone : Expr → Bool) (e : Expr) :
    s.directive? (e.thinned gone) = s.directive? e := by
  cases e with
  | field name body => cases body <;> rfl
  | _ => rfl

/-- The last directive counts. -/
theorem foldl_sortOrder (direction : SortDirection) (fields : List String) (c : Context) :
    fields.foldl (fun c field => { c with sortOrder := some ⟨field, direction⟩ }) c =
      { c with sortOrder :=
          (fields.getLast?.map fun field => ⟨field, direction⟩).or c.sortOrder } := by
  induction fields generalizing c with
  | nil => rfl
  | cons field fields ih =>
    rw [List.foldl_cons, ih, List.getLast?_cons]
    cases fields.getLast? <;> rfl

end SortSettings

/-! ### Markers -/

namespace MarkerSettings

/-- The marker that a node is. -/
def marker? (s : MarkerSettings) : Expr → Option String
  | .word value => if s.isMarker value then some value else none
  | _ => none

theorem extracts (s : MarkerSettings) :
    s.transform.Extracts s.marker? fun c _ => { c with isForcedClean := true } where
  remove e parents c word h := by
    cases e with
    | word value =>
      rw [marker?] at h
      split at h
      · rename_i hmarker
        exact if_pos hmarker
      · cases h
    | _ => cases h
  keep e parents c h := by
    cases e with
    | word value =>
      rw [marker?] at h
      split at h
      · cases h
      · rename_i hmarker
        exact if_neg hmarker
    | _ => rfl
  below e h c hc := by
    cases e with
    | word => cases hc
    | _ => cases h
  term _ _ _ _ _ _ _ _ := rfl

theorem marker?_thinned (s : MarkerSettings) (gone : Expr → Bool) (e : Expr) :
    s.marker? (e.thinned gone) = s.marker? e := by
  cases e <;> rfl

/-- One marker is enough. -/
theorem foldl_isForcedClean (words : List String) (c : Context) :
    words.foldl (fun c _ => { c with isForcedClean := true }) c =
      { c with isForcedClean := c.isForcedClean || !words.isEmpty } := by
  induction words generalizing c with
  | nil => simp
  | cons word words ih =>
    rw [List.foldl_cons, ih]
    simp

end MarkerSettings

/-! ### Queries -/

/-- **Directives and markers are taken out of a query, and nothing else.** The tree that is left
lacks the directives, or the markers, and the nodes that are lost with them. No directive is left in
it, or no marker. The field of the last directive becomes the sort of the query, which stays as it
was if there is none. The record says that results are wanted as they are if it said so before or
there was a marker. Nothing else changes in the record. -/
theorem run_extracts {text : String} {t : Expr} (hparse : parse text = .ok (some t))
    (s : SortSettings) (m : MarkerSettings) (c : Context) :
    (Pass.sorting s).run t c =
        (t.left? fun d => (s.directive? d).isSome,
          { c with sortOrder := ((t.found s.directive?).getLast?.map
              fun field => ⟨field, s.direction⟩).or c.sortOrder }) ∧
      (∀ d, ((Pass.sorting s).run t c).1 = some d → d.All fun d => s.directive? d = none) ∧
      (Pass.markers m).run t c =
        (t.left? fun d => (m.marker? d).isSome,
          { c with isForcedClean := c.isForcedClean || !(t.found m.marker?).isEmpty }) ∧
      (∀ d, ((Pass.markers m).run t c).1 = some d → d.All fun d => m.marker? d = none) := by
  have hbounds : t.BoundsAreTerms := (normal_of_parse hparse).boundsAreTerms
  have hsorting := Pass.run_eq_left? (p := Pass.sorting s) rfl (fun _ => rfl) s.extracts hbounds c
  have hmarkers := Pass.run_eq_left? (p := Pass.markers m) rfl (fun _ => rfl) m.extracts hbounds c
  rw [SortSettings.foldl_sortOrder] at hsorting
  rw [MarkerSettings.foldl_isForcedClean] at hmarkers
  refine ⟨hsorting, fun d hd => ?_, hmarkers, fun d hd => ?_⟩
  · have hleft := (congrArg Prod.fst hsorting).symm.trans hd
    refine (all_of_left? (fun e => ?_) hleft).imp fun d hd => by simpa using hd
    rw [s.directive?_thinned]
  · have hleft := (congrArg Prod.fst hmarkers).symm.trans hd
    refine (all_of_left? (fun e => ?_) hleft).imp fun d hd => by simpa using hd
    rw [m.marker?_thinned]

/-- The title and the year can be sorted by, and the latter has another name. -/
def newestFirst : SortSettings := { valid := ["title", "year"], aliases := [("new", "year")] }

/-- The required directive is taken out with its sign and the marked bound with its range. The last
directive counts. -/
theorem run_extracts_required_and_range :
    ∃ t, parse "a +order_by:title [!Clean TO b] order_by:new" = .ok (some t) ∧
      (Pass.sorting newestFirst).run t {} =
        (some (.group [.word "a", .range (.word "!Clean") (.word "b") true true]),
          { sortOrder := some ⟨"year", .descending⟩ }) ∧
      (Pass.markers ⟨["!clean"]⟩).run t {} =
        (some (.group [.word "a", .plus (.field "order_by" (.word "title")),
          .field "order_by" (.word "new")]), { isForcedClean := true }) := by
  have hparse : parse "a +order_by:title [!Clean TO b] order_by:new" =
      .ok (some (.group [.word "a", .plus (.field "order_by" (.word "title")),
        .range (.word "!Clean") (.word "b") true true, .field "order_by" (.word "new")])) := by
    with_unfolding_all rfl
  obtain ⟨hsorting, -, hmarkers, -⟩ := run_extracts hparse newestFirst ⟨["!clean"]⟩ {}
  refine ⟨_, hparse, hsorting.trans ?_, hmarkers.trans ?_⟩
  · with_unfolding_all rfl
  · have hmarker : ∀ v ∈ ["a", "title", "!Clean", "b", "new"],
        MarkerSettings.isMarker ⟨["!clean"]⟩ v = (v == "!Clean") := by decide +kernel
    simp only [List.forall_mem_cons] at hmarker
    obtain ⟨ha, htitle, hclean, hb, hnew, -⟩ := hmarker
    simp [left?, isLost, areLost, thinned, thinnedAll, MarkerSettings.marker?, ha, htitle, hclean,
      hb, hnew, found_eq, children]

end SearchQuery
