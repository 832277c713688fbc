import SearchQuery.Proofs.Tree.Nodes

/-!
# What a tree offers to be matched

A tree without signs asks for one of the searches in it. The searches are its atoms, each in the
field that stands nearest above it. Groups, alternatives, boosts and fields only bring them
together, and two trees that offer the same atoms ask for the same.

## Regular trees

Groups are not empty, ranges, fuzzy words and phrases with a distance hold only terms, and any other
phrase has at least two words. A regular tree has atoms below each node, and its atoms stay as they
are when the tree is brought into the shape that the search engine takes.

## Main definitions

* `Expr.IsAtom` — a search that compiles to one clause
* `Expr.Regular`, `Expr.Unsigned`, `Expr.Neutral` — regular trees, trees without signs, and both
* `Expr.Offers` — a tree has an atom, in a field or in none
* `Expr.Replaces` — a neutral tree offers what another one offers

## Main results

* `Expr.Regular.neutral` — a regular tree without signs is neutral
* `Expr.Neutral.exists_offers` — a neutral tree offers something
* `Expr.Neutral.exists_mapChildren` — children may be replaced by trees that offer the same
-/

namespace SearchQuery

/-- Whether nodes of the kind bring searches together without requiring or excluding any. -/
def Kind.isNeutral : Kind → Bool
  | field | group | synonyms | boost => true
  | _ => false

/-- Whether nodes of the kind require or exclude what is below them. -/
def Kind.isSign : Kind → Bool
  | plus | minus => true
  | _ => false

namespace Expr

/-! ### Atoms and regular trees -/

/-- The node is a term, and no phrase of fewer than two words. -/
def IsShapedTerm (e : Expr) : Prop :=
  e.value?.isSome = true ∧ ∀ v, e = phrase v → 2 ≤ Text.wordCount v

/-- The node is a term, or it holds terms only. Phrases have at least two words, unless a distance
applies to them. -/
def IsAtom : Expr → Prop
  | range left right _ _ => left.IsShapedTerm ∧ right.IsShapedTerm
  | fuzzy term _ => term.IsShapedTerm
  | proximity term _ => term.value?.isSome = true
  | e => e.IsShapedTerm

/-- The tree is built from atoms by nodes of some kinds, none of them without children. -/
inductive RegularOver (inner : Kind → Bool) : Expr → Prop where
  /-- An atom. -/
  | atom {e : Expr} (h : e.IsAtom) : RegularOver inner e
  /-- A node of one of the kinds. -/
  | node {e : Expr} (hkind : inner e.kind = true) (hne : e.children ≠ [])
      (h : ∀ c ∈ e.children, RegularOver inner c) : RegularOver inner e

/-- No group is empty, ranges, fuzzy words and phrases with a distance hold only terms, and any
other phrase has at least two words. -/
def Regular : Expr → Prop := RegularOver fun kind => kind.isNeutral || kind.isSign

/-- The tree is regular, and nothing in it is required or excluded. -/
def Neutral : Expr → Prop := RegularOver Kind.isNeutral

/-- Nothing in the tree is required or excluded. -/
def Unsigned (e : Expr) : Prop := e.All fun d => d.kind.isSign = false

variable {e d c : Expr} {scope : Option String} {a : Option String × Expr} {σ : Type} {s : σ}

theorem Regular.neutral (h : e.Regular) (hunsigned : e.Unsigned) : e.Neutral := by
  induction h with
  | atom h => exact .atom h
  | node hkind hne _ ih =>
    rw [hunsigned.root, Bool.or_false] at hkind
    exact .node hkind hne fun c hc => ih c hc (hunsigned.child hc)

theorem Regular.child (h : e.Regular) (hkind : e.kind.isSign = true) (hc : c ∈ e.children) :
    c.Regular := by
  cases h with
  | atom h =>
    cases e with
    | plus | minus => cases h.1
    | _ => cases hkind
  | node _ _ h => exact h c hc

theorem RegularOver.of_mem_operands {inner : Kind → Bool} (h : RegularOver inner e)
    (hd : d ∈ e.operands) : RegularOver inner d := by
  cases e with
  | group es =>
    cases h with
    | atom h => cases h.1
    | node _ _ h => exact h d hd
  | _ => exact List.mem_singleton.1 hd ▸ h

theorem Regular.of_mem_operands (h : e.Regular) (hd : d ∈ e.operands) : d.Regular :=
  RegularOver.of_mem_operands h hd

theorem Neutral.of_mem_operands (h : e.Neutral) (hd : d ∈ e.operands) : d.Neutral :=
  RegularOver.of_mem_operands h hd

theorem IsAtom.isNeutral_eq_false (h : e.IsAtom) : e.kind.isNeutral = false := by
  cases e with
  | field | group | synonyms | boost => cases h.1
  | _ => rfl

/-- The children of an atom are terms, and phrases of at least two words unless the atom gives them
a distance. -/
theorem IsAtom.of_mem_children (h : e.IsAtom) (hc : c ∈ e.children) :
    c.value?.isSome = true ∧ ∀ v, c = phrase v → 2 ≤ Text.wordCount v ∨ e.kind = .proximity := by
  cases e with
  | word | phrase | regex | doi | url => cases hc
  | range left right il ir =>
    simp only [children, List.mem_cons, List.not_mem_nil, or_false] at hc
    rcases hc with rfl | rfl
    · exact ⟨h.1.1, fun v hv => .inl (h.1.2 v hv)⟩
    · exact ⟨h.2.1, fun v hv => .inl (h.2.2 v hv)⟩
  | fuzzy term =>
    rw [List.mem_singleton.1 hc]
    exact ⟨h.1, fun v hv => .inl (h.2 v hv)⟩
  | proximity term =>
    rw [List.mem_singleton.1 hc]
    exact ⟨h, fun _ _ => .inr rfl⟩
  | group | synonyms | field | boost | plus | minus => cases h.1

theorem IsAtom.hasOperands (h : e.IsAtom) : e.HasOperands := by
  cases e with
  | group | synonyms => cases h.1
  | _ => trivial

theorem Neutral.hasOperands (h : e.Neutral) : e.HasOperands := by
  cases h with
  | atom h => exact h.hasOperands
  | node _ hne =>
    cases e with
    | group | synonyms => exact hne
    | _ => trivial

/-! ### What is offered -/

/-- The tree has the atom, in the field that is nearest above it, or else in the given one. -/
inductive Offers : Option String → Expr → Option String × Expr → Prop where
  /-- The tree is the atom. -/
  | here {scope : Option String} {e : Expr} (h : e.IsAtom) : Offers scope e (scope, e)
  /-- A child offers it. -/
  | there {scope : Option String} {e c : Expr} {a : Option String × Expr}
      (hkind : e.kind.isNeutral = true) (hc : c ∈ e.children)
      (h : Offers (e.fieldName? <|> scope) c a) : Offers scope e a

theorem offers_of_isAtom (h : e.IsAtom) : e.Offers scope a ↔ a = (scope, e) := by
  refine ⟨fun hoffers => ?_, fun heq => heq ▸ .here h⟩
  cases hoffers with
  | here => rfl
  | there hkind =>
    rw [h.isNeutral_eq_false] at hkind
    cases hkind

theorem offers_of_isNeutral (h : e.kind.isNeutral = true) :
    e.Offers scope a ↔ ∃ c ∈ e.children, c.Offers (e.fieldName? <|> scope) a := by
  refine ⟨fun hoffers => ?_, fun ⟨c, hc, hoffers⟩ => .there h hc hoffers⟩
  cases hoffers with
  | here hatom =>
    rw [hatom.isNeutral_eq_false] at h
    cases h
  | there _ hc hoffers => exact ⟨_, hc, hoffers⟩

theorem neutral_of_isNeutral (h : e.kind.isNeutral = true) :
    e.Neutral ↔ e.children ≠ [] ∧ ∀ c ∈ e.children, c.Neutral := by
  refine ⟨fun hneutral => ?_, fun ⟨hne, hchildren⟩ => .node h hne hchildren⟩
  cases hneutral with
  | atom hatom =>
    rw [hatom.isNeutral_eq_false] at h
    cases h
  | node _ hne hchildren => exact ⟨hne, hchildren⟩

section Constructors

variable {name : String} {body : Expr} {es : List Expr} {score : Decimal}

@[simp] theorem neutral_field : (field name body).Neutral ↔ body.Neutral := by
  simp [neutral_of_isNeutral (e := field name body) rfl, children]

@[simp] theorem neutral_group : (group es).Neutral ↔ es ≠ [] ∧ ∀ e ∈ es, e.Neutral :=
  neutral_of_isNeutral rfl

@[simp] theorem neutral_synonyms : (synonyms es).Neutral ↔ es ≠ [] ∧ ∀ e ∈ es, e.Neutral :=
  neutral_of_isNeutral rfl

@[simp] theorem neutral_boost : (boost body score).Neutral ↔ body.Neutral := by
  simp [neutral_of_isNeutral (e := boost body score) rfl, children]

@[simp] theorem offers_field : (field name body).Offers scope a ↔ body.Offers (some name) a := by
  simp [offers_of_isNeutral (e := field name body) rfl, children, fieldName?]

@[simp] theorem offers_group : (group es).Offers scope a ↔ ∃ e ∈ es, e.Offers scope a := by
  simp [offers_of_isNeutral (e := group es) rfl, children, fieldName?]

@[simp] theorem offers_synonyms : (synonyms es).Offers scope a ↔ ∃ e ∈ es, e.Offers scope a := by
  simp [offers_of_isNeutral (e := synonyms es) rfl, children, fieldName?]

@[simp] theorem offers_boost : (boost body score).Offers scope a ↔ body.Offers scope a := by
  simp [offers_of_isNeutral (e := boost body score) rfl, children, fieldName?]

end Constructors

theorem Neutral.exists_offers (h : e.Neutral) (scope : Option String) : ∃ a, e.Offers scope a := by
  induction h generalizing scope with
  | atom h => exact ⟨_, .here h⟩
  | @node e hkind hne _ ih =>
    obtain ⟨c, hc⟩ := List.exists_mem_of_ne_nil _ hne
    obtain ⟨a, ha⟩ := ih c hc (e.fieldName? <|> scope)
    exact ⟨a, .there hkind hc ha⟩

/-! ### Trees in the place of others -/

/-- The tree is neutral, and it offers what the other one offers. -/
structure Replaces (d e : Expr) : Prop where
  /-- It is neutral. -/
  neutral : d.Neutral
  /-- It offers the same, in whatever field. -/
  offers_iff : ∀ {scope a}, d.Offers scope a ↔ e.Offers scope a

theorem Neutral.replaces (h : e.Neutral) : e.Replaces e := ⟨h, Iff.rfl⟩

theorem Replaces.trans (h : d.Replaces e) (h' : e.Replaces c) : d.Replaces c :=
  ⟨h.neutral, h.offers_iff.trans h'.offers_iff⟩

/-- **Children may be replaced by trees that offer the same.** -/
theorem Neutral.exists_mapChildren (he : e.Neutral) (hkind : e.kind.isNeutral = true)
    {f : (c : Expr) → c ∈ e.children → σ → Option Expr × σ}
    (hf : ∀ c hc t, c.Neutral → ∃ d, (f c hc t).1 = some d ∧ d.Replaces c) :
    ∃ e', (e.mapChildren f s).1 = some e' ∧ e'.kind = e.kind ∧ e'.Replaces e := by
  obtain ⟨hne, hchildren⟩ := (neutral_of_isNeutral hkind).1 he
  have hrange : e.kind ≠ .range := fun h => by simp [h, Kind.isNeutral] at hkind
  obtain ⟨e', he', hnew, hold⟩ := exists_mapChildren_of_forall (s := s) hrange hne
    fun c hc t => hf c hc t (hchildren c hc)
  obtain ⟨hkind', hname⟩ := head_mapChildren he'
  have hneutral' : e'.kind.isNeutral = true := hkind' ▸ hkind
  refine ⟨e', he', hkind', (neutral_of_isNeutral hneutral').2 ⟨?_, fun d hd => ?_⟩, ?_⟩
  · obtain ⟨c, hc⟩ := List.exists_mem_of_ne_nil _ hne
    obtain ⟨d, hd, -⟩ := hold c hc
    exact List.ne_nil_of_mem hd
  · obtain ⟨c, -, hreplaces⟩ := hnew d hd
    exact hreplaces.neutral
  · intro scope a
    rw [offers_of_isNeutral hneutral', offers_of_isNeutral hkind, hname]
    constructor
    · rintro ⟨d, hd, hoffers⟩
      obtain ⟨c, hc, hreplaces⟩ := hnew d hd
      exact ⟨c, hc, hreplaces.offers_iff.1 hoffers⟩
    · rintro ⟨c, hc, hoffers⟩
      obtain ⟨d, hd, hreplaces⟩ := hold c hc
      exact ⟨d, hd, hreplaces.offers_iff.2 hoffers⟩

end Expr

end SearchQuery
