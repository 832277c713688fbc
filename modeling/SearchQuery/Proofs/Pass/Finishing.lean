import SearchQuery.Pass.ExactPhrase
import SearchQuery.Proofs.Pass.Rebuilding
import SearchQuery.Proofs.Tree.Filled

/-!
# The last three passes, node by node

The passes that finish a tree add the phrases that groups of words spell, bring the tree into the
shape that the search engine takes, and remove what has no effect. None of them looks at the record,
so each is a function from trees to trees, and the equations of the three functions are given here,
one for each kind of node.

## The nodes around a node

The pass over shapes looks at one of them, since a phrase below a distance is left alone; the pass
over phrases asks whether a field, an exclusion or a group of alternatives is among them, and then
leaves everything alone. Elsewhere what becomes of a node does not depend on where it stands.

## Main definitions

* `Expr.phrased`, `Expr.shaped`, `Expr.simplified` — what each of the passes leaves of a tree
* `Expr.addedPhrase?` — the phrase that a group with some operands is given
* `BackendShape.pushed`, `Simplification.tidied` — what becomes of a node that is no phrase

## Main results

* `run_exactPhrase`, `run_backendShape`, `run_simplification` — the passes are these functions
* `Expr.shaped_group`, `Expr.shaped_field`, … — the functions, node by node
-/

namespace SearchQuery

open SearchQuery.Expr

variable {e : Expr} {parents : List Kind} {c : Context}

/-! ### The shape that the search engine takes -/

namespace BackendShape

/-- What becomes of a node that is no phrase before its children are looked at. -/
def pushed : Expr → Expr
  | .plus (.group operands) => .group (operands.map .plus)
  | .minus (.group operands) => .group (operands.map .minus)
  | .minus (.synonyms alternatives) => .group (alternatives.map .minus)
  | .field name body => body.pushField name
  | e => e

theorem transform_of_ne_phrase (he : e.kind ≠ .phrase) (parents : List Kind) (c : Context) :
    transform e parents c = (.keep (pushed e), c) := by
  cases e with
  | phrase => exact absurd rfl he
  | plus inner | minus inner => cases inner <;> rfl
  | _ => rfl

/-- Of the nodes around a node only the nearest one counts. -/
theorem transform_congr {parents' : List Kind} (h : parents.getLast? = parents'.getLast?)
    (e : Expr) (c : Context) : transform e parents c = transform e parents' c := by
  simp only [transform, h]

theorem fst_parentsFirst_congr {parents' : List Kind} (h : parents.getLast? = parents'.getLast?)
    (e : Expr) (c c' : Context) :
    (Pass.backendShape.parentsFirst parents e c).1 =
      (Pass.backendShape.parentsFirst parents' e c').1 :=
  Pass.fst_parentsFirst_congr (R := fun ks ks' => ks.getLast? = ks'.getLast?) isStateless
    (fun h e c => transform_congr h e c) (fun k _ => by simp) h e c c'

end BackendShape

namespace Expr

/-- What is left of a tree in the shape that the search engine takes. -/
def shaped (e : Expr) : Option Expr := (Pass.backendShape.run e {}).1

theorem fst_parentsFirst_backendShape_of_ne_phrase (he : e.kind ≠ .phrase) (parents : List Kind)
    (c : Context) : (Pass.backendShape.parentsFirst parents e c).1 =
      (BackendShape.pushed e).rebuild fun d =>
        (Pass.backendShape.parentsFirst [(BackendShape.pushed e).kind] d {}).1 := by
  have hkeep := BackendShape.transform_of_ne_phrase he parents c
  rw [Pass.parentsFirst_eq_rebuild (p := .backendShape) BackendShape.isStateless.keepsView rfl
    (congrArg Prod.fst hkeep)]
  exact rebuild_congr fun d _ => BackendShape.fst_parentsFirst_congr (by simp) d c {}

theorem fst_parentsFirst_backendShape_phrase (v : String)
    (h : parents.getLast? ≠ some .proximity) :
    (Pass.backendShape.parentsFirst parents (phrase v) c).1 =
      (BackendShape.shapePhrase v).tree? := by
  have htransform : Pass.backendShape.transform (phrase v) parents c =
      (BackendShape.shapePhrase v, c) := if_neg h
  cases houtcome : BackendShape.shapePhrase v with
  | keep d =>
    have hvalue : d.value?.isSome = true := by
      rw [BackendShape.shapePhrase] at houtcome
      split at houtcome <;> cases houtcome <;> rfl
    rw [houtcome] at htransform
    rw [Pass.parentsFirst_of_keep rfl htransform, mapChildren_of_value?_isSome hvalue]
    rfl
  | final d =>
    rw [BackendShape.shapePhrase] at houtcome
    split at houtcome <;> cases houtcome
  | remove =>
    rw [houtcome] at htransform
    rw [Pass.parentsFirst_of_remove rfl htransform]
    rfl

/-- A phrase is left alone below a distance. Everything else is the same wherever it stands. -/
theorem fst_parentsFirst_backendShape
    (h : e.kind = .phrase → parents.getLast? ≠ some .proximity) :
    (Pass.backendShape.parentsFirst parents e c).1 = e.shaped := by
  by_cases he : e.kind = .phrase
  · cases e with
    | phrase v =>
      have hroot : (phrase v).shaped = (BackendShape.shapePhrase v).tree? :=
        fst_parentsFirst_backendShape_phrase v (by simp)
      rw [hroot, fst_parentsFirst_backendShape_phrase v (h rfl)]
    | _ => cases he
  · rw [fst_parentsFirst_backendShape_of_ne_phrase he]
    exact (fst_parentsFirst_backendShape_of_ne_phrase he [] {}).symm

/-! ### The shape, node by node -/

section Shape

variable {v name : String} {body left right : Expr} {es : List Expr} {il ir : Bool}
  {score : Decimal} {distance : UInt32}

theorem shaped_eq_rebuild (he : e.kind ≠ .phrase)
    (hpushed : (BackendShape.pushed e).kind ≠ .proximity) :
    e.shaped = (BackendShape.pushed e).rebuild shaped := by
  have hroot := fst_parentsFirst_backendShape_of_ne_phrase he [] {}
  refine Eq.trans hroot (rebuild_congr fun d _ => fst_parentsFirst_backendShape fun _ => ?_)
  simpa using hpushed

@[simp] theorem shaped_word : (word v).shaped = some (word v) :=
  shaped_eq_rebuild Kind.noConfusion Kind.noConfusion

@[simp] theorem shaped_regex : (regex v).shaped = some (regex v) :=
  shaped_eq_rebuild Kind.noConfusion Kind.noConfusion

@[simp] theorem shaped_doi : (doi v).shaped = some (doi v) :=
  shaped_eq_rebuild Kind.noConfusion Kind.noConfusion

@[simp] theorem shaped_url : (url v).shaped = some (url v) :=
  shaped_eq_rebuild Kind.noConfusion Kind.noConfusion

theorem shaped_phrase : (phrase v).shaped = (BackendShape.shapePhrase v).tree? :=
  fst_parentsFirst_backendShape_phrase v (by simp)

@[simp] theorem shaped_group : (group es).shaped = gather group (es.filterMap shaped) :=
  (shaped_eq_rebuild Kind.noConfusion Kind.noConfusion).trans rebuild_group

@[simp] theorem shaped_synonyms : (synonyms es).shaped = gather synonyms (es.filterMap shaped) :=
  (shaped_eq_rebuild Kind.noConfusion Kind.noConfusion).trans rebuild_synonyms

@[simp] theorem shaped_range : (range left right il ir).shaped =
    left.shaped.bind fun left => right.shaped.map (range left · il ir) :=
  (shaped_eq_rebuild Kind.noConfusion Kind.noConfusion).trans rebuild_range

@[simp] theorem shaped_boost : (boost body score).shaped = body.shaped.map (boost · score) :=
  (shaped_eq_rebuild Kind.noConfusion Kind.noConfusion).trans rebuild_boost

@[simp] theorem shaped_fuzzy : (fuzzy body score).shaped = body.shaped.map (fuzzy · score) :=
  (shaped_eq_rebuild Kind.noConfusion Kind.noConfusion).trans rebuild_fuzzy

theorem shaped_proximity (hbody : body.kind ≠ .phrase) :
    (proximity body distance).shaped = body.shaped.map (proximity · distance) := by
  have hroot := fst_parentsFirst_backendShape_of_ne_phrase
    (e := proximity body distance) Kind.noConfusion [] {}
  refine Eq.trans hroot (congrArg (Option.map _) ?_)
  exact fst_parentsFirst_backendShape fun h => absurd h hbody

@[simp] theorem shaped_proximity_phrase :
    (proximity (phrase v) distance).shaped = some (proximity (phrase v) distance) := by
  have hroot := fst_parentsFirst_backendShape_of_ne_phrase
    (e := proximity (phrase v) distance) Kind.noConfusion [] {}
  have hphrase : Pass.backendShape.transform (phrase v) [.proximity] {} = (.keep (phrase v), {}) :=
    rfl
  have hchild : (Pass.backendShape.parentsFirst [.proximity] (phrase v) {}).1 = some (phrase v) :=
    congrArg Prod.fst (Pass.parentsFirst_of_keep rfl hphrase)
  exact hroot.trans (congrArg (Option.map (proximity · distance)) hchild)

theorem shaped_plus (hbody : body.kind ≠ .group) : (plus body).shaped = body.shaped.map plus := by
  have hpushed : BackendShape.pushed (plus body) = plus body := by
    cases body with
    | group => exact absurd rfl hbody
    | _ => rfl
  have hkind : (BackendShape.pushed (plus body)).kind ≠ .proximity := by
    rw [hpushed]
    exact Kind.noConfusion
  rw [shaped_eq_rebuild Kind.noConfusion hkind, hpushed, rebuild_plus]

@[simp] theorem shaped_plus_group :
    (plus (group es)).shaped = gather group (es.filterMap fun e => (plus e).shaped) := by
  rw [shaped_eq_rebuild Kind.noConfusion Kind.noConfusion]
  simp [BackendShape.pushed, List.filterMap_map]

theorem shaped_minus (hgroup : body.kind ≠ .group) (hsynonyms : body.kind ≠ .synonyms) :
    (minus body).shaped = body.shaped.map minus := by
  have hpushed : BackendShape.pushed (minus body) = minus body := by
    cases body with
    | group => exact absurd rfl hgroup
    | synonyms => exact absurd rfl hsynonyms
    | _ => rfl
  have hkind : (BackendShape.pushed (minus body)).kind ≠ .proximity := by
    rw [hpushed]
    exact Kind.noConfusion
  rw [shaped_eq_rebuild Kind.noConfusion hkind, hpushed, rebuild_minus]

@[simp] theorem shaped_minus_group :
    (minus (group es)).shaped = gather group (es.filterMap fun e => (minus e).shaped) := by
  rw [shaped_eq_rebuild Kind.noConfusion Kind.noConfusion]
  simp [BackendShape.pushed, List.filterMap_map]

@[simp] theorem shaped_field_group :
    (field name (group es)).shaped =
      gather group (es.filterMap fun e => (field name e).shaped) := by
  rw [shaped_eq_rebuild Kind.noConfusion Kind.noConfusion]
  simp [BackendShape.pushed, pushField, List.filterMap_map]

@[simp] theorem shaped_field_synonyms : (field name (synonyms es)).shaped =
    gather synonyms (es.filterMap fun e => (field name e).shaped) := by
  rw [shaped_eq_rebuild Kind.noConfusion Kind.noConfusion]
  simp [BackendShape.pushed, pushField, List.filterMap_map]

@[simp] theorem shaped_field_plus :
    (field name (plus body)).shaped = (field name body).shaped.map plus :=
  shaped_eq_rebuild Kind.noConfusion Kind.noConfusion

@[simp] theorem shaped_field_minus :
    (field name (minus body)).shaped = (field name body).shaped.map minus :=
  shaped_eq_rebuild Kind.noConfusion Kind.noConfusion

@[simp] theorem shaped_field_boost :
    (field name (boost body score)).shaped = (field name body).shaped.map (boost · score) :=
  shaped_eq_rebuild Kind.noConfusion Kind.noConfusion

/-- A field that cannot go down stays where it is. -/
theorem shaped_field (hbody : body.pushField name = field name body) :
    (field name body).shaped = body.shaped.map (field name) := by
  have hpushed : BackendShape.pushed (field name body) = field name body := hbody
  have hkind : (BackendShape.pushed (field name body)).kind ≠ .proximity := by
    rw [hpushed]
    exact Kind.noConfusion
  rw [shaped_eq_rebuild Kind.noConfusion hkind, hpushed, rebuild_field]

end Shape

end Expr

theorem run_backendShape (e : Expr) (c : Context) :
    Pass.backendShape.run e c = (e.shaped, c) := by
  have htree : (Pass.backendShape.run e c).1 = e.shaped :=
    BackendShape.fst_parentsFirst_congr rfl e c {}
  rw [← htree]
  exact Pass.parentsFirst_eq BackendShape.isStateless.keepsView

/-! ### What has no effect -/

namespace Simplification

/-- What becomes of a node after its children have been looked at. -/
def tidied : Expr → Expr
  | .group operands => .group (spliceGroups operands)
  | .boost body score => if score.sameSize .one then body else .boost body score
  | e => e

theorem transform_eq (e : Expr) (parents : List Kind) (c : Context) :
    transform e parents c = (.keep (tidied e), c) := by
  cases e with
  | boost body score =>
    simp only [transform, tidied]
    split <;> rfl
  | _ => rfl

theorem fst_childrenFirst_eq (e : Expr) (parents : List Kind) (c : Context) :
    (Pass.simplification.childrenFirst parents e c).1 = (e.rebuild fun d =>
      (Pass.simplification.childrenFirst (parents ++ [e.kind]) d c).1).map tidied := by
  rw [Pass.childrenFirst_eq_bind (p := .simplification) isStateless.keepsView rfl,
    Option.map_eq_bind]
  congr 1
  funext d
  exact congrArg (fun o => o.1.tree?) (transform_eq d parents c)

theorem fst_childrenFirst_congr (e : Expr) (parents parents' : List Kind) (c c' : Context) :
    (Pass.simplification.childrenFirst parents e c).1 =
      (Pass.simplification.childrenFirst parents' e c').1 := by
  rw [fst_childrenFirst_eq, fst_childrenFirst_eq]
  refine congrArg (Option.map tidied) (rebuild_congr fun d hd => ?_)
  have hsize : sizeOf d < sizeOf e := sizeOf_lt_of_mem_children hd
  exact fst_childrenFirst_congr d _ _ c c'
termination_by sizeOf e

end Simplification

namespace Expr

/-- What is left of a tree without what has no effect. -/
def simplified (e : Expr) : Option Expr := (Pass.simplification.run e {}).1

theorem simplified_eq (e : Expr) :
    e.simplified = (e.rebuild simplified).map Simplification.tidied := by
  have hroot := Simplification.fst_childrenFirst_eq e [] {}
  refine hroot.trans (congrArg (Option.map _) (rebuild_congr fun d _ => ?_))
  exact Simplification.fst_childrenFirst_congr d _ [] {} {}

section Simplification

variable {v name : String} {body left right : Expr} {es : List Expr} {il ir : Bool}
  {score : Decimal} {distance : UInt32}

theorem simplified_of_value?_isSome (he : e.value?.isSome = true) : e.simplified = some e := by
  rw [simplified_eq]
  cases e with
  | word | phrase | regex | doi | url => rfl
  | _ => cases he

@[simp] theorem simplified_group : (group es).simplified =
    gather (fun es => group (spliceGroups es)) (es.filterMap simplified) := by
  rw [simplified_eq, rebuild_group]
  cases es.filterMap simplified <;> rfl

@[simp] theorem simplified_synonyms :
    (synonyms es).simplified = gather synonyms (es.filterMap simplified) := by
  rw [simplified_eq, rebuild_synonyms]
  cases es.filterMap simplified <;> rfl

@[simp] theorem simplified_boost : (boost body score).simplified =
    body.simplified.map fun body => if score.sameSize .one then body else boost body score := by
  rw [simplified_eq, rebuild_boost]
  cases body.simplified <;> rfl

@[simp] theorem simplified_field :
    (field name body).simplified = body.simplified.map (field name) := by
  rw [simplified_eq, rebuild_field]
  cases body.simplified <;> rfl

@[simp] theorem simplified_range : (range left right il ir).simplified =
    left.simplified.bind fun left => right.simplified.map (range left · il ir) := by
  rw [simplified_eq, rebuild_range]
  cases left.simplified with
  | none => rfl
  | some => cases right.simplified <;> rfl

@[simp] theorem simplified_fuzzy :
    (fuzzy body score).simplified = body.simplified.map (fuzzy · score) := by
  rw [simplified_eq, rebuild_fuzzy]
  cases body.simplified <;> rfl

@[simp] theorem simplified_proximity :
    (proximity body distance).simplified = body.simplified.map (proximity · distance) := by
  rw [simplified_eq, rebuild_proximity]
  cases body.simplified <;> rfl

@[simp] theorem simplified_plus : (plus body).simplified = body.simplified.map plus := by
  rw [simplified_eq, rebuild_plus]
  cases body.simplified <;> rfl

@[simp] theorem simplified_minus : (minus body).simplified = body.simplified.map minus := by
  rw [simplified_eq, rebuild_minus]
  cases body.simplified <;> rfl

end Simplification

end Expr

theorem run_simplification (e : Expr) (c : Context) :
    Pass.simplification.run e c = (e.simplified, c) := by
  have htree : (Pass.simplification.run e c).1 = e.simplified :=
    Simplification.fst_childrenFirst_congr e [] [] c {}
  have hkeeps : Simplification.transform.KeepsView (id : Context → Context) :=
    Simplification.isStateless.keepsView
  have hstate : (Pass.simplification.run e c).2 = c :=
    Pass.view_childrenFirst (p := .simplification) hkeeps [] e c
  exact Prod.ext htree hstate

/-! ### Phrases -/

/-- The phrase that a group with the operands is given. -/
def Expr.addedPhrase? (operands : List Expr) : Option String :=
  if operands.length < 2 then none else spelledPhrase? operands

theorem Expr.mapM_eq_some_iff {α : Type} {f : Expr → Option α} {es : List Expr} {xs : List α} :
    es.mapM f = some xs ↔ es.map f = xs.map some := by
  induction es generalizing xs with
  | nil => cases xs <;> simp
  | cons e es ih =>
    rw [List.mapM_cons, List.map_cons]
    cases xs with
    | nil => cases f e <;> cases es.mapM f <;> simp
    | cons x xs =>
      rw [List.map_cons, List.cons.injEq, ← ih]
      cases f e <;> cases es.mapM f <;> simp

/-- The phrase of a group joins what its operands stand for. -/
theorem Expr.addedPhrase?_eq_some_iff {es : List Expr} {p : String} :
    addedPhrase? es = some p ↔ 2 ≤ es.length ∧
      ∃ texts : List String, es.map plainText? = texts.map some ∧ " ".intercalate texts = p := by
  rw [addedPhrase?]
  split
  · simp
    omega
  · rename_i hlength
    simp only [spelledPhrase?, Option.map_eq_some_iff, mapM_eq_some_iff]
    exact (and_iff_right (by omega)).symm

namespace ExactPhraseSettings

variable {s : ExactPhraseSettings}

theorem transform_group (es : List Expr) (hscoped : isScoped parents = false) :
    s.transform (group es) parents c = match addedPhrase? es with
      | some p => (.final (group (es ++ [s.clause p es.length])), c)
      | none => (.keep (group es), c) := by
  by_cases hlength : es.length < 2
  · simp [transform, addedPhrase?, hlength]
  · simp only [transform, addedPhrase?, hscoped, hlength]
    cases spelledPhrase? es <;> rfl

theorem transform_of_ne_group (he : e.kind ≠ .group) (parents : List Kind) (c : Context) :
    s.transform e parents c = (.keep e, c) := by
  cases e with
  | group => exact absurd rfl he
  | _ => rfl

theorem transform_of_isScoped (hscoped : isScoped parents = true) (e : Expr) (c : Context) :
    s.transform e parents c = (.keep e, c) := by
  cases e with
  | group es => simp [transform, hscoped]
  | _ => rfl

theorem transform_congr {parents' : List Kind} (h : isScoped parents = isScoped parents')
    (e : Expr) (c : Context) : s.transform e parents c = s.transform e parents' c := by
  simp only [transform, h]

theorem isScoped_append (parents : List Kind) (kind : Kind) : isScoped (parents ++ [kind]) =
    (isScoped parents || (kind == .field || kind == .minus || kind == .synonyms)) := by
  simp [isScoped]

/-- Below a field, an exclusion or a group of alternatives nothing is added. -/
theorem parentsFirst_of_isScoped (he : e.Filled) (hscoped : isScoped parents = true) :
    (Pass.exactPhrase s).parentsFirst parents e c = (some e, c) := by
  induction he generalizing parents with
  | @intro e root _ ih =>
    have hkeep : (Pass.exactPhrase s).transform e parents c = (.keep e, c) :=
      transform_of_isScoped hscoped e c
    have hbelow : isScoped (parents ++ [e.kind]) = true := by
      simp [isScoped_append, hscoped]
    rw [Pass.parentsFirst_of_keep rfl hkeep, mapChildren_eq_rebuild fun d hd => ih d hd hbelow,
      rebuild_eq_self root fun _ _ => rfl]

theorem fst_parentsFirst_congr {parents' : List Kind} (h : isScoped parents = isScoped parents')
    (e : Expr) (c c' : Context) :
    ((Pass.exactPhrase s).parentsFirst parents e c).1 =
      ((Pass.exactPhrase s).parentsFirst parents' e c').1 :=
  Pass.fst_parentsFirst_congr (p := .exactPhrase s)
    (R := fun ks ks' => isScoped ks = isScoped ks') s.isStateless
    (fun h e c => transform_congr h e c)
    (fun k h => by rw [isScoped_append, isScoped_append, h]) h e c c'

end ExactPhraseSettings

namespace Expr

open ExactPhraseSettings

variable {s : ExactPhraseSettings}

/-- What is left of a tree with the phrases that its groups spell. -/
def phrased (s : ExactPhraseSettings) (e : Expr) : Option Expr :=
  ((Pass.exactPhrase s).run e {}).1

/-- A node that holds only searches as free as itself passes the question on to its children. -/
theorem phrased_eq_rebuild (he : e.kind ≠ .group) (hscope : isScoped [e.kind] = false) :
    e.phrased s = e.rebuild (phrased s) := by
  have hkeep : ((Pass.exactPhrase s).transform e [] {}).1 = .keep e :=
    congrArg Prod.fst (transform_of_ne_group he [] {})
  have hroot := Pass.parentsFirst_eq_rebuild (p := .exactPhrase s) s.isStateless.keepsView rfl hkeep
  exact Eq.trans hroot (rebuild_congr fun d _ => fst_parentsFirst_congr hscope d {} {})

/-- A field, an exclusion or a group of alternatives is left alone. -/
theorem phrased_of_isScoped (he : e.Filled) (hscope : isScoped [e.kind] = true) :
    e.phrased s = some e := by
  have hne : e.kind ≠ .group := fun h => by simp [h, isScoped] at hscope
  have hkeep : ((Pass.exactPhrase s).transform e [] {}).1 = .keep e :=
    congrArg Prod.fst (transform_of_ne_group hne [] {})
  have hroot := Pass.parentsFirst_eq_rebuild (p := .exactPhrase s) s.isStateless.keepsView rfl hkeep
  refine Eq.trans hroot (rebuild_eq_self he.root fun d hd => ?_)
  exact congrArg Prod.fst (parentsFirst_of_isScoped (he.child hd) hscope)

theorem phrased_group_of_some {es : List Expr} {p : String} (h : addedPhrase? es = some p) :
    (group es).phrased s = some (group (es ++ [s.clause p es.length])) := by
  have hfinal : s.transform (group es) [] {} = _ := transform_group es rfl
  rw [h] at hfinal
  exact Pass.parentsFirst_of_final (p := .exactPhrase s) rfl (congrArg Prod.fst hfinal)

theorem phrased_group_of_none {es : List Expr} (h : addedPhrase? es = none) :
    (group es).phrased s = gather group (es.filterMap (phrased s)) := by
  have hkeep : s.transform (group es) [] {} = _ := transform_group es rfl
  rw [h] at hkeep
  have hroot := Pass.parentsFirst_eq_rebuild (p := .exactPhrase s) s.isStateless.keepsView rfl
    (congrArg Prod.fst hkeep)
  have hscope : isScoped [(group es).kind] = isScoped [] := rfl
  rw [← rebuild_group]
  exact Eq.trans hroot (rebuild_congr fun d _ => fst_parentsFirst_congr hscope d {} {})

end Expr

/-! ### The clause of a phrase -/

namespace ExactPhraseSettings

variable (s : ExactPhraseSettings) (p : String) (n : Nat)

/-- The search for a phrase without its weight. -/
def placed : Expr :=
  match s.field with
  | some name => .field name (.proximity (.phrase p) s.slop)
  | none => .proximity (.phrase p) s.slop

/-- The weight of a phrase of so many words. -/
def weight : Decimal := (s.score.getD (.ofNat n)).normalize

/-- What the last two passes make of the search for a phrase. -/
def tidyClause : Expr :=
  if (s.weight n).sameSize .one then s.placed p else .boost (s.placed p) (s.weight n)

theorem clause_eq : s.clause p n = .boost (s.placed p) (s.weight n) := by
  simp only [clause, placed]
  cases s.field <;> rfl

theorem shaped_placed : (s.placed p).shaped = some (s.placed p) := by
  simp only [placed]
  cases s.field with
  | none => exact shaped_proximity_phrase
  | some name => exact (shaped_field rfl).trans (by rw [shaped_proximity_phrase]; rfl)

theorem simplified_placed : (s.placed p).simplified = some (s.placed p) := by
  have hphrase : (Expr.phrase p).simplified = some (.phrase p) := simplified_of_value?_isSome rfl
  simp only [placed]
  cases s.field <;> simp [hphrase]

theorem shaped_clause : (s.clause p n).shaped = some (s.clause p n) := by
  rw [clause_eq, shaped_boost, shaped_placed]
  rfl

theorem simplified_clause : (s.clause p n).simplified = some (s.tidyClause p n) := by
  rw [clause_eq, simplified_boost, simplified_placed]
  rfl

end ExactPhraseSettings

theorem run_exactPhrase (s : ExactPhraseSettings) (e : Expr) (c : Context) :
    (Pass.exactPhrase s).run e c = (e.phrased s, c) := by
  have htree : ((Pass.exactPhrase s).run e c).1 = e.phrased s :=
    ExactPhraseSettings.fst_parentsFirst_congr rfl e c {}
  rw [← htree]
  exact Pass.parentsFirst_eq (p := .exactPhrase s) s.isStateless.keepsView

end SearchQuery
