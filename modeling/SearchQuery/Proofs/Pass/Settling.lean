import SearchQuery.Proofs.Pass.Conservation
import SearchQuery.Proofs.Pass.Finishing
import SearchQuery.Proofs.Pass.Shaping

/-!
# Operators on their way down

The pass that brings a tree into the shape that the search engine takes moves signs down through
groups, and fields down through groups, signs and boosts. It sees each node once, before what is
below it, and an operator that has been seen is not looked at again.

## Operators in the way

An operator comes to rest on the first node that it cannot move through. If that node is an operator
as well, and this one moves on, then a group takes its place, and the first operator stands on a
group in the end. So `title:+(a b)` becomes a sign over the group of `title:a` and `title:b`, and a
second run goes on where the first one stopped. What decides about a tree is whether an operator on
its way down meets another one that is about to leave its place to a node of the wrong kind.

## Going down one step

Whether an operator is blocked in this way is a question about a node and what is below it in the
tree as it is. It can be followed through the pass: a tree is unblocked if and only if the operator
at its root comes to rest where it should, and the trees that are looked at next are unblocked.

## Main definitions

* `Kind.movesThrough` — the nodes that operators move through
* `Expr.InShape` — operators are at rest, and phrases have at least two words
* `Expr.Blocks` — an operator on its way down meets another one that makes way for a group
* `Expr.Unblocked` — this happens to no operator of the tree
* `Expr.Lasting` — nothing in the tree is lost

## Main results

* `Expr.shaped_eq_self_iff` — the trees that are left alone are those in shape
* `Expr.unblocked_iff` — following operators one step down
* `Expr.shapedIn_induction` — following the pass down the tree
* `run_backendShape_settles` — one run is enough for unblocked trees, and for no others from which
  nothing is lost
-/

namespace SearchQuery

open SearchQuery.Expr BackendShape

/-- Whether operators of a kind move down through the nodes of another kind. -/
def Kind.movesThrough : Kind → Kind → Bool
  | .plus, .group => true
  | .minus, .group | .minus, .synonyms => true
  | .field, .group | .field, .synonyms | .field, .plus | .field, .minus | .field, .boost => true
  | _, _ => false

namespace Expr

variable {e d c : Expr} {k : Kind} {op : Expr → Expr}

/-! ### Operators -/

/-- Putting an operator of a kind before a tree. -/
inductive IsOperator : Kind → (Expr → Expr) → Prop where
  /-- A requirement. -/
  | plus : IsOperator .plus plus
  /-- An exclusion. -/
  | minus : IsOperator .minus minus
  /-- A field. -/
  | field (name : String) : IsOperator .field (field name)

theorem IsOperator.kind_eq (h : IsOperator k op) (e : Expr) : (op e).kind = k := by
  cases h <;> rfl

theorem IsOperator.children_eq (h : IsOperator k op) (e : Expr) : (op e).children = [e] := by
  cases h <;> rfl

/-- An operator that moves goes to the children of the node below it. -/
theorem IsOperator.children_pushed (h : IsOperator k op) (hmoves : k.movesThrough e.kind = true) :
    (pushed (op e)).children = e.children.map op := by
  cases h <;> cases e <;> first | rfl | cases hmoves

/-- The node is no operator over a node through which it moves. -/
def Rests (e : Expr) : Prop := ∀ c ∈ e.children, e.kind.movesThrough c.kind = false

/-- A node at rest is not pushed. -/
theorem Rests.pushed_eq (h : e.Rests) : pushed e = e := by
  cases e with
  | plus body | minus body | field _ body =>
    have hbody := h body List.mem_cons_self
    cases body <;> first | rfl | cases hbody
  | _ => rfl

/-- A node is at rest, or it is an operator that moves. -/
theorem rests_or_moves (e : Expr) :
    e.Rests ∨ ∃ k op d, IsOperator k op ∧ k.movesThrough d.kind = true ∧ e = op d := by
  by_cases hrests : e.Rests
  · exact .inl hrests
  · simp only [Rests, not_forall, Bool.not_eq_false] at hrests
    obtain ⟨d, hd, hmoves⟩ := hrests
    cases e with
    | plus | minus | field =>
      cases List.mem_singleton.1 hd
      exact .inr ⟨_, _, d, by constructor, hmoves, rfl⟩
    | _ => cases hmoves

/-! ### Blocked operators -/

/-- An operator of the kind that comes down to the tree is blocked: it comes upon a node that makes
way for one through which the operator moves. -/
inductive Blocks (k : Kind) : Expr → Prop where
  /-- The root makes way. -/
  | here {e : Expr} (hleaves : (pushed e).kind ≠ e.kind)
      (hmoves : k.movesThrough (pushed e).kind = true) : Blocks k e
  /-- The operator moves through the root, and is blocked below. -/
  | through {e c : Expr} (hmoves : k.movesThrough e.kind = true) (hc : c ∈ e.children)
      (h : Blocks k c) : Blocks k e

/-- No operator of the tree is blocked on its way down. -/
def Unblocked (e : Expr) : Prop := e.All fun d => ∀ c ∈ d.children, ¬ c.Blocks d.kind

theorem blocks_iff : e.Blocks k ↔
    (pushed e).kind ≠ e.kind ∧ k.movesThrough (pushed e).kind = true ∨
      k.movesThrough e.kind = true ∧ ∃ c ∈ e.children, c.Blocks k := by
  refine ⟨fun h => ?_, fun h => ?_⟩
  · cases h with
    | here hleaves hmoves => exact .inl ⟨hleaves, hmoves⟩
    | through hmoves hc h => exact .inr ⟨hmoves, _, hc, h⟩
  · rcases h with ⟨hleaves, hmoves⟩ | ⟨hmoves, c, hc, h⟩
    · exact .here hleaves hmoves
    · exact .through hmoves hc h

/-- An operator that comes to rest is blocked by what takes the place of the node below it. -/
theorem blocks_iff_of_rests (h : k.movesThrough e.kind = false) :
    e.Blocks k ↔ k.movesThrough (pushed e).kind = true := by
  rw [blocks_iff, h]
  refine ⟨fun h => ?_, fun hmoves => .inl ⟨fun hkind => ?_, hmoves⟩⟩
  · rcases h with ⟨-, hmoves⟩ | ⟨hmoves, -⟩
    · exact hmoves
    · cases hmoves
  · rw [hkind, h] at hmoves
    cases hmoves

theorem unblocked_operator (hop : IsOperator k op) :
    (op e).Unblocked ↔ ¬ e.Blocks k ∧ e.Unblocked := by
  rw [Unblocked, all_iff, hop.children_eq, hop.kind_eq]
  simp [Unblocked]

/-- An operator that goes to the children of a group or a boost. -/
theorem unblocked_of_moves (hop : IsOperator k op) (hmoves : k.movesThrough e.kind = true)
    (hrests : ∀ k', e.kind.movesThrough k' = false) :
    (op e).Unblocked ↔ ∀ c ∈ e.children,
      (pushed (op e)).kind.movesThrough (pushed (op c)).kind = false ∧ (op c).Unblocked := by
  have hplace (k' : Kind) : (pushed (op e)).kind.movesThrough k' = false := by
    cases e with
    | plus | minus => cases hrests .group
    | _ => cases hop <;> first | rfl | cases hmoves
  have hpushed : pushed e = e := Rests.pushed_eq fun c _ => hrests c.kind
  have hblocks : e.Blocks k ↔ ∃ c ∈ e.children, c.Blocks k := by
    simp [blocks_iff (e := e), hpushed, hmoves]
  have hbelow : e.Unblocked ↔ ∀ c ∈ e.children, c.Unblocked := by
    have hnone (c : Expr) : ¬ c.Blocks e.kind := by simp [blocks_iff_of_rests, hrests]
    rw [Unblocked, all_iff]
    simp [hnone, Unblocked]
  rw [unblocked_operator hop, hblocks, hbelow]
  simp only [unblocked_operator hop, hplace, true_and, not_exists, not_and]
  exact ⟨fun h c hc => ⟨h.1 c hc, h.2 c hc⟩,
    fun h => ⟨fun c hc => (h c hc).1, fun c hc => (h c hc).2⟩⟩

/-- A sign makes way for a field if it moves itself. -/
theorem blocks_field_sign {sign : Expr → Expr} (hsign : IsOperator k sign) (hk : k.isSign = true) :
    (sign e).Blocks .field ↔ k.movesThrough e.kind = true ∨ e.Blocks .field := by
  have hthrough : Kind.field.movesThrough (sign e).kind = true := by
    cases hsign <;> first | rfl | cases hk
  have hleaves : (pushed (sign e)).kind ≠ (sign e).kind ∧
      Kind.field.movesThrough (pushed (sign e)).kind = true ↔ k.movesThrough e.kind = true := by
    cases hsign with
    | field => cases hk
    | plus | minus => cases e <;> simp [pushed, kind, Kind.movesThrough]
  rw [blocks_iff, hleaves, hsign.children_eq, hthrough]
  simp

/-- A field that goes below a sign. The sign ends up where it would without the field, unless the
field is blocked. -/
theorem unblocked_field_sign {sign : Expr → Expr} (hsign : IsOperator k sign)
    (hk : k.isSign = true) (name : String) : (field name (sign e)).Unblocked ↔
      ∀ c ∈ (sign e).children, (pushed (field name (sign e))).kind.movesThrough
        (pushed (field name c)).kind = false ∧ (field name c).Unblocked := by
  have hplace : (pushed (field name (sign e))).kind = k := by
    cases hsign <;> rfl
  have hbelow : k.movesThrough (pushed (field name e)).kind = k.movesThrough e.kind := by
    cases hsign <;> cases e <;> rfl
  -- What blocks the sign below the field blocks the field before.
  have hfield (h : e.Blocks k) : k.movesThrough e.kind = true ∨ e.Blocks .field := by
    have hmoves {k' : Kind} (h : k.movesThrough k' = true) :
        Kind.field.movesThrough k' = true := by
      cases hsign <;> cases k' <;> first | rfl | cases h
    cases h with
    | here hleaves hblocks => exact .inr (.here hleaves (hmoves hblocks))
    | through hblocks => exact .inl hblocks
  rw [hsign.children_eq, List.forall_mem_singleton, hplace, hbelow,
    unblocked_operator (.field name), unblocked_operator (.field name), unblocked_operator hsign,
    blocks_field_sign hsign hk, ← Bool.not_eq_true]
  tauto

/-- **Following operators one step down.** -/
theorem unblocked_iff : e.Unblocked ↔ ∀ c ∈ (pushed e).children,
    (pushed e).kind.movesThrough (pushed c).kind = false ∧ c.Unblocked := by
  rcases rests_or_moves e with hrests | ⟨k, op, d, hop, hmoves, rfl⟩
  · have hblocked (c : Expr) (hc : c ∈ e.children) :
        ¬ c.Blocks e.kind ↔ e.kind.movesThrough (pushed c).kind = false := by
      rw [blocks_iff_of_rests (hrests c hc), Bool.not_eq_true]
    rw [hrests.pushed_eq, Unblocked, all_iff]
    exact ⟨fun h c hc => ⟨(hblocked c hc).1 (h.1 c hc), h.2 c hc⟩,
      fun h => ⟨fun c hc => (hblocked c hc).2 (h c hc).1, fun c hc => (h c hc).2⟩⟩
  · rw [hop.children_pushed hmoves, List.forall_mem_map]
    -- Only below a field can the node that is moved through be an operator itself.
    cases d with
    | group | synonyms | boost => exact unblocked_of_moves hop hmoves fun _ => rfl
    | plus =>
      cases hop <;> cases hmoves
      exact unblocked_field_sign .plus rfl _
    | minus =>
      cases hop <;> cases hmoves
      exact unblocked_field_sign .minus rfl _
    | _ => cases hop <;> cases hmoves

/-! ### Trees in shape -/

/-- The tree is no phrase of fewer than two words. -/
def IsLong (e : Expr) : Prop := ∀ v, e = phrase v → 2 ≤ Text.wordCount v

/-- The phrases directly below the node have at least two words, unless it is a distance. -/
def HasLongPhrases (e : Expr) : Prop := e.kind ≠ .proximity → ∀ c ∈ e.children, c.IsLong

/-- **The shape that the search engine takes.** No operator of the tree stands directly over a node
through which it moves, and no phrase has fewer than two words unless it stands directly below a
distance. -/
def InShape (e : Expr) : Prop := e.IsLong ∧ e.All Rests ∧ e.All HasLongPhrases

theorem isLong_of_ne_phrase (he : e.kind ≠ .phrase) : e.IsLong := by
  rintro v rfl
  exact absurd rfl he

/-! ### What is left of a node -/

/-- What is left of a child of a node of the given kind. A phrase is left alone below a distance. -/
def shapedIn (k : Kind) (e : Expr) : Option Expr :=
  if k = .proximity ∧ e.kind = .phrase then some e else e.shaped

theorem shapedIn_phrase (v : String) : (phrase v).shapedIn k =
    if k = .proximity then some (phrase v) else (shapePhrase v).tree? := by
  rw [shapedIn, shaped_phrase]
  simp [kind]

/-- **What is left of a node that is no phrase.** -/
theorem shapedIn_eq_rebuild (he : e.kind ≠ .phrase) :
    e.shapedIn k = (pushed e).rebuild (shapedIn (pushed e).kind) := by
  rw [shapedIn, if_neg fun h => he h.2]
  refine (fst_parentsFirst_backendShape_of_ne_phrase he [] {}).trans (rebuild_congr fun d _ => ?_)
  by_cases hphrase : (pushed e).kind = .proximity ∧ d.kind = .phrase
  · rw [shapedIn, if_pos hphrase, hphrase.1]
    cases d with
    | phrase v =>
      have hkeep : Pass.backendShape.transform (phrase v) [.proximity] {} =
          (.keep (phrase v), {}) := rfl
      exact congrArg Prod.fst (Pass.parentsFirst_of_keep rfl hkeep)
    | _ => cases hphrase.2
  · rw [shapedIn, if_neg hphrase]
    exact fst_parentsFirst_backendShape fun hd hlast =>
      hphrase ⟨by simpa using hlast, hd⟩

/-- A phrase becomes a word or stays a phrase, and then it has two words or stands below a
distance. -/
theorem shapedIn_phrase_eq_some {v : String} (h : (phrase v).shapedIn k = some d) :
    (∃ w, d = word w) ∨ d = phrase v ∧ (k ≠ .proximity → 2 ≤ Text.wordCount v) := by
  rw [shapedIn_phrase] at h
  split at h
  · rename_i hk
    cases h
    exact .inr ⟨rfl, fun hne => absurd hk hne⟩
  · rw [shapePhrase] at h
    rcases hcount : Text.wordCount v with _ | _ | n <;> rw [hcount] at h <;> cases h
    · exact .inl ⟨_, rfl⟩
    · exact .inr ⟨rfl, fun _ => by omega⟩

theorem weight_lt_of_mem_children_pushed (he : e.kind ≠ .phrase) (hc : c ∈ (pushed e).children) :
    c.weight < e.weight :=
  transform_descends e [] {} (pushed e) (congrArg Prod.fst (transform_of_ne_phrase he [] {})) c hc

/-- **Following the pass.** A phrase becomes a word or stays as it is, and the children of any other
node are looked at once it has been pushed. -/
theorem shapedIn_induction {motive : ∀ k e d, shapedIn k e = some d → Prop}
    (word : ∀ k v w h, motive k (phrase v) (word w) h)
    (phrase : ∀ k v h, (k ≠ .proximity → 2 ≤ Text.wordCount v) →
      motive k (phrase v) (phrase v) h)
    (node : ∀ k e d h, e.kind ≠ .phrase → (pushed e).rebuild (shapedIn (pushed e).kind) = some d →
      (∀ c ∈ (pushed e).children, ∀ c' h', motive (pushed e).kind c c' h') → motive k e d h)
    (k : Kind) (e d : Expr) (h : shapedIn k e = some d) : motive k e d h := by
  by_cases he : e.kind = .phrase
  · cases e with
    | phrase v =>
      rcases shapedIn_phrase_eq_some h with ⟨w, rfl⟩ | ⟨rfl, hlong⟩
      · exact word k v w h
      · exact phrase k v h hlong
    | _ => cases he
  · refine node k e d h he ((shapedIn_eq_rebuild he).symm.trans h) fun c hc c' h' => ?_
    have hweight : c.weight < e.weight := weight_lt_of_mem_children_pushed he hc
    exact shapedIn_induction word phrase node _ c c' h'
termination_by e.weight

theorem movesThrough_shapedIn {k' : Kind} (h : c.shapedIn k' = some d) (k : Kind) :
    k.movesThrough d.kind = k.movesThrough (pushed c).kind := by
  cases k', c, d, h using shapedIn_induction with
  | word | phrase => cases k <;> rfl
  | node k' c d h hc hd => rw [(head_mapChildren hd).1]

theorem kind_pushed_ne_phrase (he : e.kind ≠ .phrase) : (pushed e).kind ≠ .phrase := by
  cases e with
  | phrase => exact he
  | plus body | minus body | field _ body => cases body <;> exact Kind.noConfusion
  | _ => exact Kind.noConfusion

/-- **Phrases are long in whatever is left of a tree**, and groups have operands. -/
theorem hasLongPhrases_of_shapedIn (h : e.shapedIn k = some d) :
    (k ≠ .proximity → d.IsLong) ∧ d.All HasLongPhrases ∧ d.Filled := by
  induction k, e, d, h using shapedIn_induction with
  | word =>
    exact ⟨fun _ => nofun, all_of_value?_isSome rfl nofun, all_of_value?_isSome rfl trivial⟩
  | phrase k v h hlong =>
    refine ⟨fun hk _ hv => ?_, all_of_value?_isSome rfl nofun, all_of_value?_isSome rfl trivial⟩
    cases hv
    exact hlong hk
  | node k e d h he hd ih =>
    obtain ⟨hoperands, hchildren⟩ := mapChildren_spec hd
    have hkind := (head_mapChildren hd).1
    have hbelow (c' : Expr) (hc' : c' ∈ d.children) :
        (d.kind ≠ .proximity → c'.IsLong) ∧ c'.All HasLongPhrases ∧ c'.Filled := by
      obtain ⟨c, hc, _, hanswer⟩ := hchildren c' hc'
      exact hkind ▸ ih c hc c' hanswer
    have hroot : d.IsLong := isLong_of_ne_phrase (hkind ▸ kind_pushed_ne_phrase he)
    exact ⟨fun _ => hroot, ⟨fun hd c' hc' => (hbelow c' hc').1 hd, fun c' hc' =>
      (hbelow c' hc').2.1⟩, ⟨hoperands, fun c' hc' => (hbelow c' hc').2.2⟩⟩

/-- **Operators are at rest in what is left of an unblocked tree.** -/
theorem rests_of_shapedIn (he : e.Unblocked) (h : e.shapedIn k = some d) : d.All Rests := by
  induction k, e, d, h using shapedIn_induction with
  | word | phrase => exact all_of_value?_isSome rfl nofun
  | node k e d h _ hd ih =>
    have hkind := (head_mapChildren hd).1
    have hanswers := (mapChildren_spec hd).2
    refine ⟨fun c' hc' => ?_, fun c' hc' => ?_⟩ <;>
      obtain ⟨c, hc, _, hanswer⟩ := hanswers c' hc'
    · rw [hkind, movesThrough_shapedIn hanswer]
      exact (unblocked_iff.1 he c hc).1
    · exact ih c hc c' hanswer (unblocked_iff.1 he c hc).2

/-! ### Trees that are left alone -/

/-- An operator that moves is not where it was. -/
theorem kind_pushed_ne (hop : IsOperator k op) (hmoves : k.movesThrough e.kind = true) :
    (pushed (op e)).kind ≠ k := by
  cases hop <;> cases e <;> first | exact Kind.noConfusion | cases hmoves

/-- Operators are at rest in a tree that is left alone. -/
theorem rests_of_shapedIn_eq_self (h : e.shapedIn k = some d) (hsame : d = e) : e.All Rests := by
  induction k, e, d, h using shapedIn_induction with
  | word | phrase => exact all_of_value?_isSome rfl nofun
  | node k e d h _ hd ih =>
    subst hsame
    have hkind : d.kind = (pushed d).kind := (head_mapChildren hd).1
    have hrests : d.Rests := by
      refine (rests_or_moves d).resolve_right ?_
      rintro ⟨k, op, x, hop, hmoves, rfl⟩
      exact kind_pushed_ne hop hmoves (hkind.symm.trans (hop.kind_eq x))
    rw [hrests.pushed_eq] at hd ih
    exact ⟨hrests, fun c hc => ih c hc c ((rebuild_eq_self_iff.1 hd).2 c hc) rfl⟩

/-- A tree in shape is left alone. -/
theorem shapedIn_eq_self {k : Kind} {e : Expr} (hfilled : e.Filled)
    (hlong : k ≠ .proximity → e.IsLong) (hrests : e.All Rests) (hphrases : e.All HasLongPhrases) :
    e.shapedIn k = some e := by
  by_cases hphrase : e.kind = .phrase
  · cases e with
    | phrase v =>
      rw [shapedIn_phrase]
      split
      · rfl
      · rename_i hk
        rw [shapePhrase_of_two_le (hlong hk v rfl)]
        rfl
    | _ => cases hphrase
  · rw [shapedIn_eq_rebuild hphrase, hrests.root.pushed_eq]
    refine rebuild_eq_self hfilled.root fun c hc => ?_
    have hsize : sizeOf c < sizeOf e := sizeOf_lt_of_mem_children hc
    exact shapedIn_eq_self (hfilled.child hc) (fun hk => hphrases.root hk c hc) (hrests.child hc)
      (hphrases.child hc)
termination_by sizeOf e

/-- The pass looks at the root of a tree as at a child of a group. -/
theorem shaped_eq_shapedIn (e : Expr) : e.shaped = e.shapedIn .group :=
  (if_neg fun h => Kind.noConfusion h.1).symm

/-- **The trees that are left alone** are those in shape, if no group in them is empty. -/
theorem shaped_eq_self_iff : e.shaped = some e ↔ e.Filled ∧ e.InShape := by
  rw [shaped_eq_shapedIn]
  refine ⟨fun h => ?_, fun ⟨hfilled, hlong, hrests, hphrases⟩ =>
    shapedIn_eq_self hfilled (fun _ => hlong) hrests hphrases⟩
  obtain ⟨hlong, hphrases, hfilled⟩ := hasLongPhrases_of_shapedIn h
  exact ⟨hfilled, hlong Kind.noConfusion, rests_of_shapedIn_eq_self h rfl, hphrases⟩

/-! ### Trees from which nothing is lost -/

/-- No group of the tree is empty, and every phrase has a word, so that nothing is lost. -/
def Lasting (e : Expr) : Prop :=
  e.All fun d => d.HasOperands ∧ ∀ v, d = phrase v → Text.wordCount v ≠ 0

theorem IsOperator.lasting_iff (hop : IsOperator k op) : (op e).Lasting ↔ e.Lasting := by
  rw [Lasting, all_iff, hop.children_eq, List.forall_mem_singleton]
  refine and_iff_right ?_
  cases hop <;> exact ⟨trivial, nofun⟩

theorem Lasting.hasOperands_pushed (he : e.Lasting) : (pushed e).HasOperands := by
  rcases rests_or_moves e with hrests | ⟨k, op, d, hop, hmoves, rfl⟩
  · rw [hrests.pushed_eq]
    exact he.root.1
  · have hd : d.HasOperands := (hop.lasting_iff.1 he).root.1
    have hmap {es : List Expr} {f : Expr → Expr} (hes : es ≠ []) : es.map f ≠ [] := by
      simpa using hes
    cases hop <;> cases d <;> first | exact trivial | exact hmap hd

theorem Lasting.of_mem_children_pushed (he : e.Lasting) (hc : c ∈ (pushed e).children) :
    c.Lasting := by
  rcases rests_or_moves e with hrests | ⟨k, op, d, hop, hmoves, rfl⟩
  · rw [hrests.pushed_eq] at hc
    exact he.child hc
  · rw [hop.children_pushed hmoves] at hc
    obtain ⟨o, ho, rfl⟩ := List.mem_map.1 hc
    have hd : d.Lasting := hop.lasting_iff.1 he
    exact hop.lasting_iff.2 (hd.child ho)

/-- Something is left of the tree. -/
theorem Lasting.exists_shapedIn {e : Expr} (he : e.Lasting) (k : Kind) :
    ∃ d, e.shapedIn k = some d := by
  by_cases hphrase : e.kind = .phrase
  · cases e with
    | phrase v =>
      have hwords : Text.wordCount v ≠ 0 := he.root.2 v rfl
      rw [shapedIn_phrase, shapePhrase]
      split
      · exact ⟨_, rfl⟩
      · split
        · contradiction
        · exact ⟨_, rfl⟩
        · exact ⟨_, rfl⟩
    | _ => cases hphrase
  · rw [shapedIn_eq_rebuild hphrase]
    refine exists_rebuild he.hasOperands_pushed fun c hc => ?_
    have hweight : c.weight < e.weight := weight_lt_of_mem_children_pushed hphrase hc
    exact (he.of_mem_children_pushed hc).exists_shapedIn _
termination_by e.weight

/-- **Only unblocked trees** have all their operators at rest afterwards. -/
theorem Lasting.unblocked_of_rests (he : e.Lasting) (h : e.shapedIn k = some d)
    (hd : d.All Rests) : e.Unblocked := by
  induction k, e, d, h using shapedIn_induction with
  | word | phrase => exact all_of_value?_isSome rfl nofun
  | node k e d h _ hrebuild ih =>
    refine unblocked_iff.2 fun c hc => ?_
    have hc' : c.Lasting := he.of_mem_children_pushed hc
    obtain ⟨d', hd'⟩ := hc'.exists_shapedIn (pushed e).kind
    have hmem : d' ∈ d.children := mem_children_of_rebuild hrebuild hc hd'
    have hrests : d.kind.movesThrough d'.kind = false := hd.root d' hmem
    rw [(head_mapChildren hrebuild).1, movesThrough_shapedIn hd'] at hrests
    exact ⟨hrests, ih c hc d' hd' hc' (hd.child hmem)⟩

theorem shaped_field_word (name v : String) :
    (field name (word v)).shaped = some (field name (word v)) := by
  rw [shaped_field rfl, shaped_word, Option.map_some]

end Expr

/-- **When one run is enough.** If no operator of a tree is blocked, what is left of the tree is in
shape, and a second run leaves it alone. If one is, and nothing of the tree is lost, then what is
left is not in shape, and a second run changes it. -/
theorem run_backendShape_settles (t : Expr) (c : Context) :
    (t.Unblocked → ∀ d, (Pass.backendShape.run t c).1 = some d →
      d.InShape ∧ ∀ c', Pass.backendShape.run d c' = (some d, c')) ∧
    (t.Lasting → ¬ t.Unblocked → ∃ d, Pass.backendShape.run t c = (some d, c) ∧
      ¬ d.InShape ∧ ∀ c', Pass.backendShape.run d c' ≠ (some d, c')) := by
  refine ⟨fun ht d hd => ?_, fun ht hblocked => ?_⟩
  · rw [run_backendShape, shaped_eq_shapedIn] at hd
    have hd : t.shapedIn .group = some d := hd
    obtain ⟨hlong, hphrases, hfilled⟩ := hasLongPhrases_of_shapedIn hd
    have hshape : d.InShape := ⟨hlong Kind.noConfusion, rests_of_shapedIn ht hd, hphrases⟩
    exact ⟨hshape, fun c' => by rw [run_backendShape, shaped_eq_self_iff.2 ⟨hfilled, hshape⟩]⟩
  · obtain ⟨d, hd⟩ := ht.exists_shapedIn .group
    have hshape : ¬ d.InShape := fun h => hblocked (ht.unblocked_of_rests hd h.2.1)
    refine ⟨d, by rw [run_backendShape, shaped_eq_shapedIn, hd], hshape, fun c' hsame => ?_⟩
    rw [run_backendShape] at hsame
    exact hshape (shaped_eq_self_iff.1 (congrArg Prod.fst hsame)).2

/-- A field that comes to rest below a sign, and one that is blocked by a sign. -/
theorem run_backendShape_settles_title :
    ∃ t t', t = field "title" (group [word "a", minus (word "b")]) ∧ t.Unblocked ∧
      (∃ d, Pass.backendShape.run t {} = (some d, {}) ∧
        d = group [field "title" (word "a"), minus (field "title" (word "b"))] ∧ d.InShape ∧
        Pass.backendShape.run d {} = (some d, {})) ∧
      t' = field "title" (plus (group [word "a", word "b"])) ∧ t'.Lasting ∧ ¬ t'.Unblocked ∧
      ∃ d, Pass.backendShape.run t' {} = (some d, {}) ∧ ¬ d.InShape ∧
        Pass.backendShape.run d {} ≠ (some d, {}) := by
  have hterm (v : String) : (field "title" (word v)).Unblocked := by
    refine (unblocked_operator (.field "title")).2 ⟨fun h => ?_, all_of_value?_isSome rfl nofun⟩
    cases (blocks_iff_of_rests rfl).1 h
  have hopen : (field "title" (group [word "a", minus (word "b")])).Unblocked := by
    have hminus : (field "title" (minus (word "b"))).Unblocked :=
      (unblocked_field_sign .minus rfl "title").2 (List.forall_mem_singleton.2 ⟨rfl, hterm "b"⟩)
    refine (unblocked_of_moves (.field "title") rfl fun _ => rfl).2 ?_
    simp [children, hterm, hminus, pushed, pushField, kind, Kind.movesThrough]
  have hlasting : (field "title" (plus (group [word "a", word "b"]))).Lasting := by
    simp [Lasting, HasOperands]
  have hblocked : ¬ (field "title" (plus (group [word "a", word "b"]))).Unblocked := fun h =>
    ((unblocked_operator (.field "title")).1 h).1 ((blocks_field_sign .plus rfl).2 (.inl rfl))
  have hrun : Pass.backendShape.run (field "title" (group [word "a", minus (word "b")])) {} =
      (some (group [field "title" (word "a"), minus (field "title" (word "b"))]), {}) := by
    simp [run_backendShape, shaped_field_word, gather]
  obtain ⟨hshape, hagain⟩ := (run_backendShape_settles _ {}).1 hopen _ (congrArg Prod.fst hrun)
  obtain ⟨d, hd, hnot, hchanged⟩ := (run_backendShape_settles _ {}).2 hlasting hblocked
  exact ⟨_, _, rfl, hopen, ⟨_, hrun, rfl, hshape, hagain {}⟩, rfl, hlasting, hblocked, d, hd, hnot,
    hchanged {}⟩

/-- **A sign in the way of a field.** It goes on to the operands of the group in a second run. -/
theorem run_backendShape_of_required_group :
    ∃ t d, t = field "title" (plus (group [word "a", word "b"])) ∧
      Pass.backendShape.run t {} = (some d, {}) ∧
      d = plus (group [field "title" (word "a"), field "title" (word "b")]) ∧ ¬ d.InShape ∧
      Pass.backendShape.run d {} =
        (some (group [plus (field "title" (word "a")), plus (field "title" (word "b"))]), {}) := by
  have hplus (v : String) :
      (plus (field "title" (word v))).shaped = some (plus (field "title" (word v))) := by
    rw [shaped_plus Kind.noConfusion, shaped_field_word, Option.map_some]
  refine ⟨_, _, rfl, ?_, rfl, fun h => ?_, ?_⟩
  · simp [run_backendShape, shaped_field_word, gather]
  · cases h.2.1.root _ List.mem_cons_self
  · simp [run_backendShape, hplus, gather]

end SearchQuery
