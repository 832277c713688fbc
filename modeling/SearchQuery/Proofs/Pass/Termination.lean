import SearchQuery.Pass.Stage
import SearchQuery.Proofs.Pass.Rebuilding

/-!
# Passes come to an end

Parents first, a pass goes on with the children of whatever it has put in the place of a node, so
nothing keeps it from going on forever: a pass that replaced a word by a group of words would find
words in every group. The passes of settings replace nodes by larger ones as well. A search in a
field is copied to each operand, a rejected field becomes a group of two, and a word becomes a group
of alternatives that is then gone into. What they go into is lighter than what they were given all
the same, and `Expr.weight` is a measure of trees that shows it for all of them.

## Calls

A pass is defined with a rank of its own that falls, and could not be written down without one. So
that the end of a pass is a theorem about running it and not a condition for being one, the same
recursion is also stated without any rank, for a limited number of calls that are open at the same
time. There is no state if these are too few. More calls than the tree weighs are always enough, and
what comes out is then what the pass makes of the tree.

## Main definitions

* `Transform.parentsFirstWithin`, `Transform.childrenFirstWithin` — a transformation over a tree
  with a limited number of open calls
* `Pass.runWithin` — a pass over a tree with a limited number of open calls

## Main results

* `Pass.parentsFirstWithin_eq`, `Pass.childrenFirstWithin_eq` — calls that are enough
* `Settings.descends_of_pass?` — what a pass goes into is lighter than what it was given
* `Settings.runWithin_of_pass?` — every pass of settings comes to an end on every tree
-/

namespace SearchQuery

variable {σ : Type}

namespace Transform

/-- The tree after a transformation, each node before its children, with `calls` calls that may be
open at the same time. -/
def parentsFirstWithin (f : Transform σ) (ignores : Kind → Bool) :
    (calls : Nat) → List Kind → Expr → Option σ → Option Expr × Option σ
  | calls + 1, parents, e, some s =>
    if ignores e.kind then (some e, some s)
    else
      match f e parents s with
      | (.remove, s) => (none, some s)
      | (.final e', s) => (some e', some s)
      | (.keep e', s) =>
        e'.mapChildren
          (fun c _ s? => parentsFirstWithin f ignores calls (parents ++ [e'.kind]) c s?) (some s)
  | _, _, _, _ => (none, none)

/-- The tree after a transformation, each node after its children, with `calls` calls that may be
open at the same time. -/
def childrenFirstWithin (f : Transform σ) (ignores : Kind → Bool) :
    (calls : Nat) → List Kind → Expr → Option σ → Option Expr × Option σ
  | calls + 1, parents, e, some s =>
    if ignores e.kind then (some e, some s)
    else
      match e.mapChildren
          (fun c _ s? => childrenFirstWithin f ignores calls (parents ++ [e.kind]) c s?)
          (some s) with
      | (some e', some s) =>
        let (outcome, s) := f e' parents s
        (outcome.tree?, some s)
      | lost => lost
  | _, _, _, _ => (none, none)

end Transform

namespace Pass

variable {p : Pass σ} {parents : List Kind} {e : Expr} {s : σ} {calls : Nat}

/-- The tree after the pass with `calls` calls that may be open at the same time, and the state if
these are enough. -/
def runWithin (p : Pass σ) (calls : Nat) (e : Expr) (s : σ) : Option Expr × Option σ :=
  match p.order with
  | .parentsFirst => p.transform.parentsFirstWithin p.ignores calls [] e (some s)
  | .childrenFirst => p.transform.childrenFirstWithin p.ignores calls [] e (some s)

/-- **Calls that are enough** for a pass that sees parents first are more than its rank. -/
theorem parentsFirstWithin_eq (h : p.rank parents e < calls) :
    p.transform.parentsFirstWithin p.ignores calls parents e (some s) =
      (p.parentsFirst parents e s).map id some := by
  -- The rank falls from a call to the calls that it makes, and so does what is left of `calls`.
  induction calls generalizing parents e s with
  | zero => exact absurd h (Nat.not_lt_zero _)
  | succ calls ih =>
    by_cases hignores : p.ignores e.kind = true
    · rw [Transform.parentsFirstWithin, parentsFirst, if_pos hignores, if_pos hignores]
      rfl
    rw [Transform.parentsFirstWithin, if_neg hignores]
    rw [Bool.not_eq_true] at hignores
    rcases houtcome : p.transform e parents s with ⟨_ | _ | _, t⟩
    case keep d =>
      rw [parentsFirst_of_keep hignores houtcome]
      refine Expr.mapChildren_map_state fun c hc s => ih ?_
      have hrank := p.descends e parents _ d (congrArg Prod.fst houtcome) c hc
      omega
    case final d =>
      rw [parentsFirst_eq_of_final hignores (congrArg Prod.fst houtcome), houtcome]
      rfl
    case remove =>
      rw [parentsFirst_of_remove hignores houtcome]
      rfl

/-- Calls that are enough for a pass that sees children first are more than the weight of the
tree. -/
theorem childrenFirstWithin_eq (h : e.weight < calls) :
    p.transform.childrenFirstWithin p.ignores calls parents e (some s) =
      (p.childrenFirst parents e s).map id some := by
  induction calls generalizing parents e s with
  | zero => exact absurd h (Nat.not_lt_zero _)
  | succ calls ih =>
    rw [Transform.childrenFirstWithin, childrenFirst]
    split
    · rfl
    have hchildren : e.mapChildren
          (fun c _ => p.transform.childrenFirstWithin p.ignores calls (parents ++ [e.kind]) c)
          (some s) =
        (e.mapChildren (fun c _ => p.childrenFirst (parents ++ [e.kind]) c) s).map id some :=
      Expr.mapChildren_map_state fun c hc s => ih (by
        have hweight := Expr.weight_lt_of_mem_children hc
        omega)
    rw [hchildren]
    rcases e.mapChildren (fun c _ => p.childrenFirst (parents ++ [e.kind]) c) s with ⟨_ | d, t⟩
    · rfl
    · rfl

/-- A pass that goes from a node to lighter ones comes to an end on every tree. -/
theorem runWithin_eq (hrank : ∀ e, p.rank [] e = e.weight) (h : e.weight < calls) :
    p.runWithin calls e s = (p.run e s).map id some := by
  rw [runWithin, run]
  cases p.order with
  | parentsFirst => exact parentsFirstWithin_eq (by rwa [hrank])
  | childrenFirst => exact childrenFirstWithin_eq h

end Pass

namespace Settings

variable {s : Settings} {engines : Engines} {stage : TreeStage} {p : Pass Context}

/-- The rank of every pass of settings is the weight of a node. -/
theorem rank_of_pass? (h : s.pass? engines stage = some p) : p.rank = fun _ e => e.weight := by
  cases stage with
  | spelling =>
    obtain ⟨correct?, -, rfl⟩ := Option.map_eq_some_iff.1 h
    rfl
  | _ =>
    cases h
    rfl

/-- **What a pass goes into is lighter** than what it was given. -/
theorem descends_of_pass? (h : s.pass? engines stage = some p) :
    p.transform.Descends fun _ e => e.weight :=
  rank_of_pass? h ▸ p.descends

/-- **Every pass of settings comes to an end on every tree.** The children of a replacement that it
goes into weigh less than the node that is replaced, and more open calls than the tree weighs are
never needed. -/
theorem runWithin_of_pass? (h : s.pass? engines stage = some p) :
    (∀ e parents c e', (p.transform e parents c).1 = .keep e' →
      ∀ d ∈ e'.children, d.weight < e.weight) ∧
    ∀ e c calls, e.weight < calls → p.runWithin calls e c = ((p.run e c).1, some (p.run e c).2) :=
  ⟨descends_of_pass? h, fun e _ _ hcalls =>
    Pass.runWithin_eq (fun e => by rw [rank_of_pass? h]) hcalls⟩

/-- A corrector that knows one word. -/
def correctsTeh : Corrector := fun word => if word = "teh" then some "the" else none

/-- The pass that corrects words goes into the alternatives that it has made, and two open calls are
not enough for that. -/
theorem runWithin_of_pass?_spelling :
    ∃ p, ({} : Settings).pass? { corrector := some correctsTeh } .spelling = some p ∧
      (p.run (.group [.word "teh"]) { language := some "en" }).1 =
        some (.group [.synonyms [.word "teh", .word "the"]]) ∧
      (p.runWithin 2 (.group [.word "teh"]) { language := some "en" }).2 = none := by
  have hpass : ({} : Settings).pass? { corrector := some correctsTeh } .spelling =
      some (Pass.spelling {} correctsTeh) := rfl
  refine ⟨_, hpass, ?_, by rfl⟩
  have hrun := (runWithin_of_pass? hpass).2 (.group [.word "teh"]) { language := some "en" } 5
    (by decide)
  exact (congrArg Prod.fst hrun).symm.trans (by rfl)

end Settings

end SearchQuery
