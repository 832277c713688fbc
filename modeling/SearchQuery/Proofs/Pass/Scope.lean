import SearchQuery.Pass.Identifiers
import SearchQuery.Proofs.Pass.Substitution

/-!
# Identifiers in a scope

An identifier is searched for in its field if it stands on its own. One that a field or an operator
applies to is to be left alone: a field in a field does not compile, and what the query excludes is
not to be noted. The pass asks for this at the nearest node around the identifier only.

## Groups in between

Directly below a field or an operator the answer is right, and so it is where only groups stand
around the identifier. What goes wrong is a group in between, as in `-(10.1001/abc x)`: the group
stands in the scope of the sign, and the identifier in the group is taken for one on its own. So the
pass respects scopes exactly on the trees in which no identifier stands in such a group.

## Main definitions

* `isOutermost` — nothing but groups stands around a node
* `IdentifierSettings.searchedWhere` — searching for the identifiers in certain places
* `Expr.HidesScope` — an identifier stands in a group to which something applies

## Main results

* `IdentifierSettings.run_of_filled` — the pass searches for identifiers where it takes them to be
  free
* `IdentifierSettings.run_respects_scope` — where this is what it should do
-/

namespace SearchQuery

open SearchQuery.Expr

/-- Whether nothing but groups stands around a node. -/
def isOutermost (parents : List Kind) : Bool := parents.all (· == .group)

theorem isFree_of_isOutermost {parents : List Kind} (h : isOutermost parents = true) :
    isFree parents = true := by
  rw [isFree]
  cases hlast : parents.getLast? with
  | none => rfl
  | some k => exact List.all_eq_true.1 h k (List.mem_of_getLast? hlast)

namespace IdentifierSettings

/-! ### What is searched for -/

/-- What stands in the place of a term if identifiers are searched for where `free` says so. -/
def standIn (s : IdentifierSettings) (free : List Kind → Bool) (e : Expr) (parents : List Kind) :
    Expr :=
  match identifier? e with
  | some found => if free parents then s.search found else e
  | none =>
    match e with
    | .word value => (s.wildcard? value parents).getD e
    | e => e

/-- The identifier that is noted at a node. -/
def noted? (free : List Kind → Bool) (v : Expr × List Kind) : Option String :=
  if free v.2 then identifier? v.1 else none

/-- **Searching for the identifiers in some places.** Each of them is replaced by the search for it
and noted, from left to right, and the other ones stay as they are. -/
def searchedWhere (s : IdentifierSettings) (free : List Kind → Bool) (t : Expr) (c : Context) :
    Option Expr × Context :=
  (t.replaceTerms (s.standIn free) [],
    { c with dois := c.dois ++ (t.places []).filterMap (noted? free) })

end IdentifierSettings

/-- Some identifier stands in a group, and something around the group is no group. -/
def Expr.HidesScope (t : Expr) : Prop :=
  ∃ v ∈ t.places [], (IdentifierSettings.identifier? v.1).isSome = true ∧
    isFree v.2 = true ∧ isOutermost v.2 = false

namespace IdentifierSettings

variable {s : IdentifierSettings} {t e : Expr} {c : Context}

/-! ### The pass -/

theorem substitutes (s : IdentifierSettings) : s.transform.Substitutes (s.standIn isFree) where
  term e parents c h := by
    cases hfound : identifier? e with
    | some found =>
      cases hfree : isFree parents <;> simp [transform, standIn, hfound, hfree, h]
    | none =>
      cases e with
      | word value =>
        cases hsearch : s.wildcard? value parents <;>
          simp [transform, standIn, identifier?, hsearch, value?]
      | phrase | regex => exact .inr ⟨rfl, rfl⟩
      | doi => cases hfound
      | url => simp [transform, standIn, hfound, value?]
      | _ => cases h
  node e parents c h := by
    cases e with
    | word | phrase | regex | doi | url => cases h
    | _ => rfl

theorem noteAt_identifiers (s : IdentifierSettings) (c : Context) (v : Expr × List Kind) :
    (Pass.identifiers s).noteAt c v = { c with dois := c.dois ++ (noted? isFree v).toList } := by
  show (s.transform v.1 v.2 c).2 = _
  cases hfound : identifier? v.1 with
  | some found =>
    cases hfree : isFree v.2 <;> simp [transform, noted?, hfound, hfree]
  | none =>
    simp only [transform, noted?, hfound]
    split
    · split <;> simp
    · simp

theorem foldl_noteAt (s : IdentifierSettings) (vs : List (Expr × List Kind)) (c : Context) :
    vs.foldl (Pass.identifiers s).noteAt c =
      { c with dois := c.dois ++ vs.filterMap (noted? isFree) } := by
  induction vs generalizing c with
  | nil => simp
  | cons v vs ih =>
    rw [List.foldl_cons, noteAt_identifiers, ih]
    cases hnoted : noted? isFree v with
    | none => simp [List.filterMap_cons_none hnoted]
    | some => simp [List.filterMap_cons_some hnoted]

/-- **The pass searches for identifiers where it takes them to be free.** -/
theorem run_of_filled (s : IdentifierSettings) (ht : t.Filled) (c : Context) :
    (Pass.identifiers s).run t c = s.searchedWhere isFree t c := by
  refine (Pass.parentsFirst_eq_replaceTerms (p := .identifiers s) (fun _ => rfl) s.substitutes
    (fun v hv _ => .inl (ht.of_mem_places hv)) c).trans ?_
  rw [foldl_noteAt, searchedWhere]

/-! ### Scopes -/

/-- Where no scope is hidden, an identifier is taken to be free only if it is. -/
theorem isFree_eq_isOutermost (ht : ¬ t.HidesScope) {v : Expr × List Kind} (hv : v ∈ t.places [])
    (hfound : (identifier? v.1).isSome = true) : isFree v.2 = isOutermost v.2 := by
  cases houter : isOutermost v.2 with
  | true => exact isFree_of_isOutermost houter
  | false => exact Bool.eq_false_iff.2 fun hfree => ht ⟨v, hv, hfound, hfree, houter⟩

theorem identifier?_of_range (h : e.kind = .range) : identifier? e = none := by
  cases e with
  | range => rfl
  | _ => cases h

/-- No identifier in a range is free then, and nothing is noted there. -/
theorem isQuietAt_of_range (ht : ¬ t.HidesScope) {v : Expr × List Kind} (hv : v ∈ t.places [])
    (hrange : v.1.kind = .range) : (Pass.identifiers s).IsQuietAt v.2 v.1 := by
  intro w hw c
  have hnone : noted? isFree w = none := by
    cases hfound : identifier? w.1 with
    | none => simp [noted?, hfound]
    | some found =>
      have hbelow : v.2 ++ [v.1.kind] <+: w.2 := by
        refine (eq_or_prefix_of_mem_places hw).resolve_left fun hroot => ?_
        rw [hroot, identifier?_of_range hrange] at hfound
        cases hfound
      have hmem : Kind.range ∈ w.2 := hbelow.subset (by simp [hrange])
      have houter : isOutermost w.2 = false := by
        simpa [isOutermost] using ⟨_, hmem, Kind.noConfusion⟩
      have hfree := isFree_eq_isOutermost ht (mem_places_trans hv hw) (by simp [hfound])
      simp [noted?, hfree, houter]
  rw [noteAt_identifiers, hnone]
  simp

theorem run_of_not_hidesScope (s : IdentifierSettings) (ht : ¬ t.HidesScope) (c : Context) :
    (Pass.identifiers s).run t c = s.searchedWhere isOutermost t c := by
  have htree : t.replaceTerms (s.standIn isFree) [] =
      t.replaceTerms (s.standIn isOutermost) [] := by
    refine replaceTerms_congr fun v hv _ => ?_
    cases hfound : identifier? v.1 with
    | some found => simp [standIn, hfound, isFree_eq_isOutermost ht hv (by simp [hfound])]
    | none => simp [standIn, hfound]
  have hnotes : (t.places []).filterMap (noted? isFree) =
      (t.places []).filterMap (noted? isOutermost) := by
    refine List.filterMap_congr fun v hv => ?_
    cases hfound : identifier? v.1 with
    | some found => simp [noted?, isFree_eq_isOutermost ht hv (by simp [hfound])]
    | none => simp [noted?, hfound]
  refine (Pass.parentsFirst_eq_replaceTerms (p := .identifiers s) (fun _ => rfl) s.substitutes
    (fun v hv hrange => .inr (isQuietAt_of_range ht hv hrange)) c).trans ?_
  rw [foldl_noteAt, searchedWhere, htree, hnotes]

/-- Where a scope is hidden, more is noted than what is free. -/
theorem length_noted?_lt (ht : t.HidesScope) :
    ((t.places []).filterMap (noted? isOutermost)).length <
      ((t.places []).filterMap (noted? isFree)).length := by
  have hle (vs : List (Expr × List Kind)) :
      (vs.filterMap (noted? isOutermost)).length ≤ (vs.filterMap (noted? isFree)).length := by
    rw [List.length_filterMap_eq_countP, List.length_filterMap_eq_countP]
    refine List.countP_mono_left fun v _ hnoted => ?_
    cases houter : isOutermost v.2 with
    | true => simpa [noted?, houter, isFree_of_isOutermost houter] using hnoted
    | false => simp [noted?, houter] at hnoted
  obtain ⟨v, hv, hfound, hfree, houter⟩ := ht
  obtain ⟨found, hfound⟩ := Option.isSome_iff_exists.1 hfound
  obtain ⟨before, after, hplaces⟩ := List.append_of_mem hv
  have hin : noted? isFree v = some found := by simp [noted?, hfree, hfound]
  have hout : noted? isOutermost v = none := by simp [noted?, houter]
  have hbefore := hle before
  have hafter := hle after
  rw [hplaces, List.filterMap_append, List.filterMap_append, List.filterMap_cons_some hin,
    List.filterMap_cons_none hout]
  simp only [List.length_append, List.length_cons]
  omega

/-- **Where the pass respects scopes.** If no identifier stands in a group to which a field, an
operator or another node applies, the identifiers around which there is nothing but groups are
searched for in their field and noted from left to right, and all others are left alone. If one does
and the tree has no empty groups, this is not what the pass does. -/
theorem run_respects_scope (s : IdentifierSettings) (t : Expr) (c : Context) :
    (¬ t.HidesScope → (Pass.identifiers s).run t c = s.searchedWhere isOutermost t c) ∧
    (t.HidesScope → t.Filled → (Pass.identifiers s).run t c ≠ s.searchedWhere isOutermost t c) := by
  refine ⟨fun ht => s.run_of_not_hidesScope ht c, fun ht hfilled heq => ?_⟩
  rw [s.run_of_filled hfilled] at heq
  have hnoted : c.dois ++ (t.places []).filterMap (noted? isFree) =
      c.dois ++ (t.places []).filterMap (noted? isOutermost) :=
    congrArg (fun result => result.2.dois) heq
  exact Nat.ne_of_gt (length_noted?_lt ht) (congrArg List.length (List.append_cancel_left hnoted))

/-- An identifier on its own and one that is excluded, and the two in a group that is excluded. -/
theorem run_respects_scope_excluded :
    ∃ t t', t = group [doi "10.1001/abc", minus (doi "10.1002/def")] ∧ ¬ t.HidesScope ∧
      (Pass.identifiers {}).run t {} = searchedWhere {} isOutermost t {} ∧
      t' = minus (group [doi "10.1001/abc", word "x"]) ∧ t'.HidesScope ∧ t'.Filled ∧
      (Pass.identifiers {}).run t' {} ≠ searchedWhere {} isOutermost t' {} := by
  have hshown : ¬ (group [doi "10.1001/abc", minus (doi "10.1002/def")]).HidesScope := by
    simp [HidesScope, places_eq, children, identifier?, kind, isFree, isOutermost]
  have hhidden : (minus (group [doi "10.1001/abc", word "x"])).HidesScope := by
    simp [HidesScope, places_eq, children, identifier?, kind, isFree, isOutermost]
  have hfilled : (minus (group [doi "10.1001/abc", word "x"])).Filled := by
    simp [Filled, HasOperands]
  exact ⟨_, _, rfl, hshown, (run_respects_scope {} _ {}).1 hshown, rfl, hhidden, hfilled,
    (run_respects_scope {} _ {}).2 hhidden hfilled⟩

/-- **A group hides a sign.** An identifier in an excluded group is searched for in its field and
noted, although the sign applies to it. -/
theorem run_of_excluded_group :
    ∃ t, t = minus (group [doi "10.1001/abc", word "x"]) ∧
      (Pass.identifiers {}).run t {} =
        (some (minus (group [search {} "10.1001/abc", word "x"])), { dois := ["10.1001/abc"] }) ∧
      searchedWhere {} isOutermost t {} = (some t, {}) := by
  have hfilled : (minus (group [doi "10.1001/abc", word "x"])).Filled := by
    simp [Filled, HasOperands]
  have hword (free : List Kind → Bool) (parents : List Kind) :
      standIn {} free (word "x") parents = word "x" := by
    have hpattern : Doi.pattern? (Text.lowercase ['x']) = none := by decide
    simp [standIn, identifier?, wildcard?, hpattern]
  have htree (free : List Kind → Bool) :
      (minus (group [doi "10.1001/abc", word "x"])).replaceTerms (standIn {} free) [] =
        some (minus (group [standIn {} free (doi "10.1001/abc") [.minus, .group], word "x"])) := by
    rw [replaceTerms_of_value?_eq_none rfl, rebuild_minus, replaceTerms_of_value?_eq_none rfl,
      rebuild_group, List.filterMap_cons, List.filterMap_cons, replaceTerms_of_value?_isSome rfl,
      replaceTerms_of_value?_isSome rfl, hword]
    rfl
  refine ⟨_, rfl, ?_, ?_⟩
  · rw [run_of_filled _ hfilled, searchedWhere, htree]
    simp [standIn, identifier?, isFree, places_eq, children, kind, noted?]
  · rw [searchedWhere, htree]
    simp [standIn, identifier?, isOutermost, places_eq, children, kind, noted?]

end IdentifierSettings

end SearchQuery
