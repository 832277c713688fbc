import SearchQuery.Proofs.Pass.Finishing

/-!
# The last three passes together

What adding phrases, shaping and simplifying leave of a tree, node by node. A requirement over a
group goes to the operands of the group, so the tree is looked at by itself and below a requirement.

## Main definitions

* `Expr.finished` — what is left of a tree, below a requirement or by itself
* `finishingPasses` — the three passes

## Main results

* `Expr.finished_group_of_some`, `Expr.finished_group_of_none` — groups with and without a phrase
* `Expr.finished_true` — a requirement of what is no group stays where it is
* `runPasses_finishingPasses` — the three passes are this function
-/

namespace SearchQuery

namespace Expr

variable {s : ExactPhraseSettings} {required : Bool} {body left right : Expr} {e : Expr}
  {es : List Expr} {score : Decimal} {distance : UInt32} {il ir : Bool} {p : String}

/-- The tree below a requirement or by itself. -/
def signed (required : Bool) (e : Expr) : Expr := if required then plus e else e

/-- What is left of a tree, below a requirement or by itself, after phrases are added and it is
shaped and simplified. -/
def finished (s : ExactPhraseSettings) (required : Bool) (e : Expr) : Option Expr :=
  ((e.phrased s).bind fun d => (signed required d).shaped).bind simplified

theorem shaped_signed_group (required : Bool) (es : List Expr) :
    (signed required (group es)).shaped =
      gather group (es.filterMap fun e => (signed required e).shaped) := by
  cases required with
  | false => exact shaped_group
  | true => exact shaped_plus_group

theorem gather_bind_signed (required : Bool) (es : List Expr) :
    ((gather group es).bind fun d => (signed required d).shaped) =
      gather group (es.filterMap fun e => (signed required e).shaped) := by
  cases es with
  | nil => rfl
  | cons => exact shaped_signed_group required _

theorem gather_bind_simplified (es : List Expr) : (gather group es).bind simplified =
    gather (fun ds => group (spliceGroups ds)) (es.filterMap simplified) := by
  cases es with
  | nil => rfl
  | cons => exact simplified_group

/-- What is left of a group that spells no phrase is left of its operands. -/
theorem finished_group_of_none (h : addedPhrase? es = none) : (group es).finished s required =
    gather (fun ds => group (spliceGroups ds)) (es.filterMap (finished s required)) := by
  have hfinished : finished s required =
      fun e => (e.phrased s).bind fun d => (signed required d).shaped.bind simplified :=
    funext fun e => Option.bind_assoc _ _ _
  rw [finished, phrased_group_of_none h, gather_bind_signed, gather_bind_simplified,
    List.filterMap_filterMap, List.filterMap_filterMap, hfinished]

/-- A group that spells a phrase has the clause of the phrase for its last operand. -/
theorem finished_group_of_some (h : addedPhrase? es = some p) : (group es).finished s required =
    some (group (spliceGroups (es.filterMap (fun e => (signed required e).shaped.bind simplified) ++
      [signed required (s.tidyClause p es.length)]))) := by
  have hclause : (signed required (s.clause p es.length)).shaped.bind simplified =
      some (signed required (s.tidyClause p es.length)) := by
    cases required with
    | false => simp [signed, ExactPhraseSettings.shaped_clause,
        ExactPhraseSettings.simplified_clause]
    | true =>
      have hkind : (s.clause p es.length).kind ≠ .group := by
        rw [ExactPhraseSettings.clause_eq]
        exact Kind.noConfusion
      simp [signed, shaped_plus hkind, ExactPhraseSettings.shaped_clause,
        ExactPhraseSettings.simplified_clause]
  have hlast : [s.clause p es.length].filterMap
      (fun e => (signed required e).shaped.bind simplified) =
        [signed required (s.tidyClause p es.length)] := by
    simp [hclause]
  rw [finished, phrased_group_of_some h, Option.bind_some, shaped_signed_group,
    gather_bind_simplified, List.filterMap_filterMap, List.filterMap_append, hlast]
  exact gather_of_ne_nil (by simp)

theorem kind_of_rebuild {g : Expr → Option Expr} {d : Expr} (h : e.rebuild g = some d) :
    d.kind = e.kind :=
  (head_mapChildren h).1

theorem kind_of_phrased (he : e.Filled) {d : Expr} (h : e.phrased s = some d) :
    d.kind = e.kind := by
  by_cases hgroup : e.kind = .group
  · cases e with
    | group es =>
      cases hspelled : addedPhrase? es with
      | some p =>
        rw [phrased_group_of_some hspelled] at h
        cases h
        rfl
      | none =>
        rw [phrased_group_of_none hspelled, ← rebuild_group] at h
        exact kind_of_rebuild h
    | _ => cases hgroup
  · by_cases hscope : ExactPhraseSettings.isScoped [e.kind] = true
    · rw [phrased_of_isScoped he hscope] at h
      cases h
      rfl
    · rw [phrased_eq_rebuild hgroup (by simpa using hscope)] at h
      exact kind_of_rebuild h

/-- A requirement of what is no group stays where it is. -/
theorem finished_true (he : e.Filled) (hkind : e.kind ≠ .group) :
    e.finished s true = (e.finished s false).map plus := by
  rw [finished, finished]
  cases hphrased : e.phrased s with
  | none => rfl
  | some d =>
    have hd : d.kind ≠ .group := fun h => hkind ((kind_of_phrased he hphrased).symm.trans h)
    have hshaped : (signed true d).shaped = (signed false d).shaped.map plus := shaped_plus hd
    rw [Option.bind_some, Option.bind_some, hshaped]
    cases (signed false d).shaped with
    | none => rfl
    | some d => exact simplified_plus

theorem finished_of_value?_isSome (he : e.value?.isSome = true) :
    e.finished s false = e.shaped.bind simplified := by
  have hphrased : e.phrased s = some e := by
    cases e with
    | word | phrase | regex | doi | url => exact phrased_eq_rebuild Kind.noConfusion rfl
    | _ => cases he
  rw [finished, hphrased]
  rfl

theorem finished_of_isScoped (he : e.Filled)
    (hscope : ExactPhraseSettings.isScoped [e.kind] = true) :
    e.finished s false = e.shaped.bind simplified := by
  rw [finished, phrased_of_isScoped he hscope]
  rfl

theorem finished_plus : (plus body).finished s false = body.finished s true := by
  rw [finished, phrased_eq_rebuild Kind.noConfusion rfl, rebuild_plus, Option.bind_map]
  rfl

theorem finished_boost : (boost body score).finished s false = (body.finished s false).map
    fun body => if score.sameSize .one then body else boost body score := by
  rw [finished, phrased_eq_rebuild Kind.noConfusion rfl, rebuild_boost, finished]
  cases body.phrased s with
  | none => rfl
  | some d =>
    simp only [Option.map_some, Option.bind_some, signed, Bool.false_eq_true, if_false,
      shaped_boost]
    cases d.shaped with
    | none => rfl
    | some => exact simplified_boost

theorem finished_fuzzy :
    (fuzzy body score).finished s false = (body.finished s false).map (fuzzy · score) := by
  rw [finished, phrased_eq_rebuild Kind.noConfusion rfl, rebuild_fuzzy, finished]
  cases body.phrased s with
  | none => rfl
  | some d =>
    simp only [Option.map_some, Option.bind_some, signed, Bool.false_eq_true, if_false,
      shaped_fuzzy]
    cases d.shaped with
    | none => rfl
    | some => exact simplified_fuzzy

theorem finished_range : (range left right il ir).finished s false =
    (left.finished s false).bind fun left =>
      (right.finished s false).map (range left · il ir) := by
  rw [finished, phrased_eq_rebuild Kind.noConfusion rfl, rebuild_range, finished, finished]
  cases left.phrased s with
  | none => rfl
  | some l =>
    cases right.phrased s with
    | none =>
      simp only [Option.bind_some, Option.map_none, Option.bind_none]
      exact (Option.bind_fun_none _).symm
    | some r =>
      simp only [Option.map_some, Option.bind_some, signed, Bool.false_eq_true, if_false,
        shaped_range]
      cases l.shaped with
      | none => rfl
      | some l =>
        cases r.shaped with
        | none => exact (Option.bind_fun_none _).symm
        | some r => exact simplified_range

theorem finished_proximity (hbody : body.Filled) (hkind : body.kind ≠ .phrase) :
    (proximity body distance).finished s false =
      (body.finished s false).map (proximity · distance) := by
  rw [finished, phrased_eq_rebuild Kind.noConfusion rfl, rebuild_proximity, finished]
  cases hphrased : body.phrased s with
  | none => rfl
  | some d =>
    have hd : d.kind ≠ .phrase := fun h => hkind ((kind_of_phrased hbody hphrased).symm.trans h)
    simp only [Option.map_some, Option.bind_some, signed, Bool.false_eq_true, if_false,
      shaped_proximity hd]
    cases d.shaped with
    | none => rfl
    | some => exact simplified_proximity

end Expr

open SearchQuery.Expr

/-- The passes that finish a tree, in the usual order. -/
def finishingPasses (s : ExactPhraseSettings) : List (Pass Context) :=
  [.exactPhrase s, .backendShape, .simplification]

theorem runPasses_finishingPasses (s : ExactPhraseSettings) (e : Expr) (c : Context) :
    runPasses (finishingPasses s) (some e) c = (e.finished s false, c) := by
  rw [finishingPasses, runPasses_cons, run_exactPhrase, finished]
  cases e.phrased s with
  | none => rw [runPasses_none]; rfl
  | some d =>
    rw [runPasses_cons, run_backendShape]
    have hsigned : (signed false d).shaped = d.shaped := rfl
    rw [Option.bind_some, hsigned]
    cases d.shaped with
    | none => rw [runPasses_none]; rfl
    | some d => rw [runPasses_cons, run_simplification]; rfl

end SearchQuery
