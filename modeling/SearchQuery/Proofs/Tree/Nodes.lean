import SearchQuery.Expr.Visits
import SearchQuery.Pass.Simplification

/-!
# The nodes of a tree

What holds of every node of a tree, what is found at some node, and what becomes of a node when its
children are replaced. All of it goes by way of `Expr.children`, so nothing here looks at the kind
of a node more than once.

## Every node and some node

`Expr.All` says that each node has a property. `Expr.Reaches` says that some node has one, and that
the way to it passes no node of a certain sort: excluded operands, say, or whatever a pass takes
away. Both are recursions over children, and what is said about a node and its children holds of
whole trees by induction on one of them.

## Replacing the children of a node

A function with a state answers for each child, or removes it. What the answers for the children
say about the new node is stated in both directions: every new child is an answer
(`mapChildren_spec`), and a child for which there is an answer saves the node
(`exists_mapChildren_of_mem`). A range is the exception, since it needs both of its bounds. The
state changes only through the answers.

## Groups in groups

What stands side by side at the root of a tree are its operands: those of a group, and any other
tree by itself. Groups that stand directly in a group are spliced into it, and the operands of the
operands are what it has afterwards.

## Main definitions

* `Expr.All` — every node of a tree has a property
* `Expr.Reaches` — some node has a property, and the way to it is clear
* `Expr.HasOperands` — the node is no empty group
* `Expr.fieldName?` — the name of a search in a field
* `Expr.BoundsAreTerms` — the bounds of ranges are terms
* `Expr.operands` — what stands side by side at the root of a tree

## Main results

* `Expr.mapChildren_spec` — a node that loses its last operand is lost, and the new children of a
  node are answers for its old ones
* `Expr.exists_mapChildren_of_mem` — a node is not lost if a child is left, unless it is a range
* `Expr.mapChildren_eq_self` — a node whose children stay as they are stays as it is
* `Expr.mapChildren_state_iff` — what the state records of the children of a node
* `Expr.mapChildren_map_state` — the children of a node replaced with another form of the state
* `Expr.exists_mem_visits_iff` — the nodes that a look at a tree finds are those it reaches
* `Expr.mem_spliceGroups` — what is in a group after the groups in it are spliced in
-/

namespace SearchQuery.Expr

variable {σ τ : Type} {P Q : Expr → Prop} {e e' c : Expr}

/-! ### Every node -/

/-- Every node of the tree has the property. -/
inductive All (P : Expr → Prop) : Expr → Prop where
  /-- The root has it, and so have the nodes below. -/
  | intro {e : Expr} (root : P e) (below : ∀ c ∈ e.children, All P c) : All P e

theorem all_iff : e.All P ↔ P e ∧ ∀ c ∈ e.children, c.All P :=
  ⟨fun ⟨root, below⟩ => ⟨root, below⟩, fun ⟨root, below⟩ => ⟨root, below⟩⟩

theorem All.root (h : e.All P) : P e := (all_iff.1 h).1

theorem All.child (h : e.All P) (hc : c ∈ e.children) : c.All P := (all_iff.1 h).2 c hc

theorem All.and (h : e.All P) (h' : e.All Q) : e.All fun d => P d ∧ Q d := by
  induction h with
  | intro root _ ih => exact ⟨⟨root, h'.root⟩, fun c hc => ih c hc (h'.child hc)⟩

theorem All.imp (hPQ : ∀ e, P e → Q e) (h : e.All P) : e.All Q := by
  induction h with
  | intro root _ ih => exact ⟨hPQ _ root, ih⟩

section Constructors

variable {v name : String} {body left right : Expr} {es : List Expr} {il ir : Bool}
  {score : Decimal} {distance : UInt32}

@[simp] theorem all_word : (word v).All P ↔ P (word v) := by
  simp [all_iff (e := word v), children]

@[simp] theorem all_phrase : (phrase v).All P ↔ P (phrase v) := by
  simp [all_iff (e := phrase v), children]

@[simp] theorem all_regex : (regex v).All P ↔ P (regex v) := by
  simp [all_iff (e := regex v), children]

@[simp] theorem all_doi : (doi v).All P ↔ P (doi v) := by
  simp [all_iff (e := doi v), children]

@[simp] theorem all_url : (url v).All P ↔ P (url v) := by
  simp [all_iff (e := url v), children]

@[simp] theorem all_field : (field name body).All P ↔ P (field name body) ∧ body.All P := by
  simp [all_iff (e := field name body), children]

@[simp] theorem all_group : (group es).All P ↔ P (group es) ∧ ∀ e ∈ es, e.All P := all_iff

@[simp] theorem all_synonyms : (synonyms es).All P ↔ P (synonyms es) ∧ ∀ e ∈ es, e.All P :=
  all_iff

@[simp] theorem all_range : (range left right il ir).All P ↔
    P (range left right il ir) ∧ left.All P ∧ right.All P := by
  simp [all_iff (e := range left right il ir), children]

@[simp] theorem all_boost : (boost body score).All P ↔ P (boost body score) ∧ body.All P := by
  simp [all_iff (e := boost body score), children]

@[simp] theorem all_fuzzy : (fuzzy body score).All P ↔ P (fuzzy body score) ∧ body.All P := by
  simp [all_iff (e := fuzzy body score), children]

@[simp] theorem all_proximity :
    (proximity body distance).All P ↔ P (proximity body distance) ∧ body.All P := by
  simp [all_iff (e := proximity body distance), children]

@[simp] theorem all_plus : (plus body).All P ↔ P (plus body) ∧ body.All P := by
  simp [all_iff (e := plus body), children]

@[simp] theorem all_minus : (minus body).All P ↔ P (minus body) ∧ body.All P := by
  simp [all_iff (e := minus body), children]

end Constructors

/-! ### Some node -/

/-- Some node of the tree has the property, and neither it nor a node around it is skipped. -/
inductive Reaches (skips P : Expr → Prop) : Expr → Prop where
  /-- The root has it. -/
  | here {e : Expr} (hskip : ¬ skips e) (h : P e) : Reaches skips P e
  /-- A node below the root has it. -/
  | there {e c : Expr} (hskip : ¬ skips e) (hc : c ∈ e.children) (h : Reaches skips P c) :
      Reaches skips P e

section Reaches

variable {skips skips' : Expr → Prop}

theorem reaches_iff :
    e.Reaches skips P ↔ ¬ skips e ∧ (P e ∨ ∃ c ∈ e.children, c.Reaches skips P) := by
  refine ⟨fun h => ?_, fun ⟨hskip, h⟩ => ?_⟩
  · cases h with
    | here hskip h => exact ⟨hskip, .inl h⟩
    | there hskip hc h => exact ⟨hskip, .inr ⟨_, hc, h⟩⟩
  · rcases h with h | ⟨c, hc, h⟩
    · exact .here hskip h
    · exact .there hskip hc h

theorem Reaches.not_skips (h : e.Reaches skips P) : ¬ skips e := (reaches_iff.1 h).1

/-- Fewer nodes are skipped, and more nodes have the property. -/
theorem Reaches.imp (hskips : ∀ e, skips' e → skips e) (hPQ : ∀ e, P e → Q e)
    (h : e.Reaches skips P) : e.Reaches skips' Q := by
  induction h with
  | here hskip h => exact .here (fun h => hskip (hskips _ h)) (hPQ _ h)
  | there hskip hc _ ih => exact .there (fun h => hskip (hskips _ h)) hc ih

/-- A way to a node and a way on from there are one way. -/
theorem Reaches.join (h : e.Reaches skips fun d => d.Reaches skips P) : e.Reaches skips P := by
  induction h with
  | here _ h => exact h
  | there hskip hc _ ih => exact .there hskip hc ih

theorem Reaches.exists (h : e.Reaches skips P) : ∃ d, P d := by
  induction h with
  | here _ h => exact ⟨_, h⟩
  | there _ _ _ ih => exact ih

/-- What holds of every node holds of the one that is reached, and below it. -/
theorem Reaches.and_all (h : e.Reaches skips P) (hall : e.All Q) :
    e.Reaches skips fun d => P d ∧ d.All Q := by
  induction h with
  | here hskip h => exact .here hskip ⟨h, hall⟩
  | there hskip hc _ ih => exact .there hskip hc (ih (hall.child hc))

end Reaches

/-- The nodes that are found below a node are those that it reaches. -/
theorem exists_mem_visitsBelow_iff {prunes : Kind → Bool} {parents : List Kind} {e : Expr} :
    (∃ v ∈ e.visitsBelow prunes parents, P v.1) ↔ e.Reaches (fun d => prunes d.kind = true) P := by
  rw [visitsBelow, reaches_iff]
  by_cases hprunes : prunes e.kind = true
  · simp [hprunes]
  · rw [if_neg hprunes]
    simp only [List.mem_cons, List.mem_flatMap, List.mem_attach, true_and, Subtype.exists,
      exists_eq_or_imp]
    refine ⟨fun h => ⟨hprunes, ?_⟩, fun ⟨_, h⟩ => ?_⟩
    · rcases h with h | ⟨v, ⟨c, hc, hv⟩, h⟩
      · exact .inl h
      · have hsize : sizeOf c < sizeOf e := sizeOf_lt_of_mem_children hc
        exact .inr ⟨c, hc, exists_mem_visitsBelow_iff.1 ⟨v, hv, h⟩⟩
    · rcases h with h | ⟨c, hc, h⟩
      · exact .inl h
      · have hsize : sizeOf c < sizeOf e := sizeOf_lt_of_mem_children hc
        obtain ⟨v, hv, h⟩ := exists_mem_visitsBelow_iff.2 h
        exact .inr ⟨v, ⟨c, hc, hv⟩, h⟩
termination_by sizeOf e

/-- The nodes that are found in a tree are those that it reaches. -/
theorem exists_mem_visits_iff {prunes : Kind → Bool} :
    (∃ v ∈ e.visits prunes, P v.1) ↔ e.Reaches (fun d => prunes d.kind = true) P :=
  exists_mem_visitsBelow_iff

/-! ### Properties of nodes -/

/-- The node is a group with operands, a group with alternatives, or no group. -/
def HasOperands : Expr → Prop
  | group operands => operands ≠ []
  | synonyms alternatives => alternatives ≠ []
  | _ => True

/-- The name of a search in a field. -/
def fieldName? : Expr → Option String
  | field name _ => some name
  | _ => none

/-- The bounds of every range in the tree are terms. -/
def BoundsAreTerms (e : Expr) : Prop :=
  e.All fun d => d.kind = .range → ∀ c ∈ d.children, c.value?.isSome = true

/-- A node that is no group has operands. -/
theorem hasOperands_of_kind (hgroup : e.kind ≠ .group) (hsynonyms : e.kind ≠ .synonyms) :
    e.HasOperands := by
  cases e <;> simp_all [HasOperands, kind]

theorem children_of_value?_isSome (h : e.value?.isSome = true) : e.children = [] := by
  cases e with
  | word | phrase | regex | doi | url => rfl
  | _ => cases h

theorem all_of_value?_isSome (hvalue : e.value?.isSome = true) (h : P e) : e.All P := by
  refine ⟨h, fun c hc => ?_⟩
  rw [children_of_value?_isSome hvalue] at hc
  cases hc

/-- Nothing is reached in a term but the term. -/
theorem reaches_of_value?_isSome {skips : Expr → Prop} (hvalue : e.value?.isSome = true)
    (h : e.Reaches skips P) : P e := by
  cases h with
  | here _ h => exact h
  | there _ hc _ =>
    rw [children_of_value?_isSome hvalue] at hc
    cases hc

/-! ### Replacing the children of a node -/

theorem mem_collect {α β : Type} {xs : List α} {f : (x : α) → x ∈ xs → σ → Option β × σ} {s : σ}
    {I : σ → Prop} {y : β} (hs : I s) (hI : ∀ x hx t, I t → I (f x hx t).2)
    (h : y ∈ (collect xs f s).1) : ∃ x hx t, I t ∧ (f x hx t).1 = some y := by
  induction xs generalizing s with
  | nil => cases h
  | cons x xs ih =>
    rw [collect] at h
    rcases List.mem_append.1 h with h | h
    · exact ⟨x, _, s, hs, by simpa using h⟩
    · obtain ⟨x', hx', t, ht⟩ := ih (hI x _ s hs) (fun y hy t => hI y _ t) h
      exact ⟨x', _, t, ht⟩

/-- **What replacing the children of a node makes.** A group keeps an operand or is lost itself, and
the children of the new node are answers for children of the old one, in states with whatever
property the answers do not spoil. -/
theorem mapChildren_spec_of_state {f : (c : Expr) → c ∈ e.children → σ → Option Expr × σ} {s : σ}
    {I : σ → Prop} (hs : I s) (hI : ∀ c hc t, I t → I (f c hc t).2)
    (h : (e.mapChildren f s).1 = some e') :
    e'.HasOperands ∧ ∀ d ∈ e'.children, ∃ c hc t, I t ∧ (f c hc t).1 = some d := by
  cases e with
  | word | phrase | regex | doi | url =>
    cases h
    exact ⟨trivial, fun d hd => by cases hd⟩
  | group | synonyms =>
    rw [mapChildren] at h
    dsimp only at h
    split at h
    · cases h
    · rename_i hne
      cases h
      exact ⟨fun hnil => hne (List.isEmpty_iff.2 hnil), fun d hd => mem_collect hs hI hd⟩
  | range left right il ir =>
    rw [mapChildren] at h
    split at h
    · cases h
    · rename_i left' t hleft
      obtain ⟨right', hright, rfl⟩ := Option.map_eq_some_iff.1 h
      have ht : I t := by
        have hafter := hI left (by simp [children]) s hs
        rwa [hleft] at hafter
      refine ⟨trivial, fun d hd => ?_⟩
      simp only [children, List.mem_cons, List.not_mem_nil, or_false] at hd
      rcases hd with rfl | rfl
      · exact ⟨left, _, s, hs, congrArg Prod.fst hleft⟩
      · exact ⟨right, _, t, ht, hright⟩
  | field | boost | fuzzy | proximity | plus | minus =>
    rw [mapChildren] at h
    obtain ⟨body, hbody, rfl⟩ := Option.map_eq_some_iff.1 h
    refine ⟨trivial, fun d hd => ?_⟩
    rw [List.mem_singleton.1 hd]
    exact ⟨_, _, s, hs, hbody⟩

/-- What replacing the children of a node makes, whatever the states. -/
theorem mapChildren_spec {f : (c : Expr) → c ∈ e.children → σ → Option Expr × σ} {s : σ}
    (h : (e.mapChildren f s).1 = some e') :
    e'.HasOperands ∧ ∀ d ∈ e'.children, ∃ c hc t, (f c hc t).1 = some d := by
  obtain ⟨hoperands, hchildren⟩ :=
    mapChildren_spec_of_state (I := fun _ => True) trivial (fun _ _ _ _ => trivial) h
  refine ⟨hoperands, fun d hd => ?_⟩
  obtain ⟨c, hc, t, -, hanswer⟩ := hchildren d hd
  exact ⟨c, hc, t, hanswer⟩

/-- A node keeps its kind, and a search in a field its name. -/
theorem head_mapChildren {f : (c : Expr) → c ∈ e.children → σ → Option Expr × σ} {s : σ}
    (h : (e.mapChildren f s).1 = some e') :
    e'.kind = e.kind ∧ e'.fieldName? = e.fieldName? := by
  cases e with
  | word | phrase | regex | doi | url =>
    cases h
    exact ⟨rfl, rfl⟩
  | group | synonyms =>
    rw [mapChildren] at h
    dsimp only at h
    split at h <;> cases h
    exact ⟨rfl, rfl⟩
  | range =>
    rw [mapChildren] at h
    split at h
    · cases h
    · obtain ⟨right', -, rfl⟩ := Option.map_eq_some_iff.1 h
      exact ⟨rfl, rfl⟩
  | field | boost | fuzzy | proximity | plus | minus =>
    rw [mapChildren] at h
    obtain ⟨body, -, rfl⟩ := Option.map_eq_some_iff.1 h
    exact ⟨rfl, rfl⟩

/-- A term has no children, and stays. -/
theorem mapChildren_of_value?_isSome {f : (c : Expr) → c ∈ e.children → σ → Option Expr × σ}
    {s : σ} (h : e.value?.isSome) : e.mapChildren f s = (some e, s) := by
  cases e with
  | word | phrase | regex | doi | url => rfl
  | _ => cases h

theorem exists_mem_collect {α β : Type} {xs : List α} {f : (x : α) → x ∈ xs → σ → Option β × σ}
    {s : σ} {R : β → Prop} {x : α} (hx : x ∈ xs)
    (hf : ∀ (hx : x ∈ xs) t, ∃ y, (f x hx t).1 = some y ∧ R y) :
    ∃ y ∈ (collect xs f s).1, R y := by
  induction xs generalizing s with
  | nil => cases hx
  | cons x' xs ih =>
    rw [collect]
    rcases List.mem_cons.1 hx with rfl | hx
    · obtain ⟨y, hy, hR⟩ := hf List.mem_cons_self s
      exact ⟨y, List.mem_append_left _ (by simp [hy]), hR⟩
    · obtain ⟨y, hy, hR⟩ :=
        @ih (fun y hy => f y (List.mem_cons_of_mem x' hy)) _ hx fun hx t => hf _ t
      exact ⟨y, List.mem_append_right _ hy, hR⟩

/-- **A child for which there is always an answer saves its node**, unless the node is a range. -/
theorem exists_mapChildren_of_mem {f : (c : Expr) → c ∈ e.children → σ → Option Expr × σ} {s : σ}
    (hkind : e.kind ≠ .range) (hc : c ∈ e.children)
    (hf : ∀ hc t, ∃ d, (f c hc t).1 = some d ∧ P d) :
    ∃ e', (e.mapChildren f s).1 = some e' ∧ ∃ d ∈ e'.children, P d := by
  cases e with
  | word | phrase | regex | doi | url => cases hc
  | range => exact absurd rfl hkind
  | group operands =>
    obtain ⟨d, hd, h⟩ := exists_mem_collect (s := s) hc hf
    have hne : (collect operands f s).1 ≠ [] := List.ne_nil_of_mem hd
    exact ⟨group (collect operands f s).1, if_neg (by simpa using hne), d, hd, h⟩
  | synonyms alternatives =>
    obtain ⟨d, hd, h⟩ := exists_mem_collect (s := s) hc hf
    have hne : (collect alternatives f s).1 ≠ [] := List.ne_nil_of_mem hd
    exact ⟨synonyms (collect alternatives f s).1, if_neg (by simpa using hne), d, hd, h⟩
  | field | boost | fuzzy | proximity | plus | minus =>
    cases List.mem_singleton.1 hc
    obtain ⟨d, hd, h⟩ := hf hc s
    exact ⟨_, congrArg (Option.map _) hd, d, List.mem_singleton_self d, h⟩

/-- If there is always an answer for every child, the new children are those answers, and each child
has one among them. -/
theorem exists_mapChildren_of_forall {f : (c : Expr) → c ∈ e.children → σ → Option Expr × σ} {s : σ}
    {R : Expr → Expr → Prop} (hkind : e.kind ≠ .range) (hne : e.children ≠ [])
    (hf : ∀ c hc t, ∃ d, (f c hc t).1 = some d ∧ R c d) :
    ∃ e', (e.mapChildren f s).1 = some e' ∧
      (∀ d ∈ e'.children, ∃ c ∈ e.children, R c d) ∧
      ∀ c ∈ e.children, ∃ d ∈ e'.children, R c d := by
  obtain ⟨c, hc⟩ := List.exists_mem_of_ne_nil _ hne
  obtain ⟨e', he', -⟩ := exists_mapChildren_of_mem (s := s) hkind hc fun hc t => hf c hc t
  refine ⟨e', he', fun d hd => ?_, fun c hc => ?_⟩
  · obtain ⟨c, hc, t, hanswer⟩ := (mapChildren_spec he').2 d hd
    obtain ⟨d', hd', hR⟩ := hf c hc t
    cases hanswer.symm.trans hd'
    exact ⟨c, hc, hR⟩
  · obtain ⟨e'', he'', hchild⟩ := exists_mapChildren_of_mem (s := s) hkind hc fun hc t => hf c hc t
    cases he'.symm.trans he''
    exact hchild

theorem collect_eq_self {α : Type} {xs : List α} {f : (x : α) → x ∈ xs → σ → Option α × σ} {s : σ}
    (hf : ∀ x hx t, (f x hx t).1 = some x) : (collect xs f s).1 = xs := by
  induction xs generalizing s with
  | nil => rfl
  | cons x xs ih =>
    rw [collect]
    simp only [hf x List.mem_cons_self s, Option.toList_some, List.singleton_append,
      ih fun y hy t => hf y (List.mem_cons_of_mem x hy) t]

/-- A node whose children all stay as they are stays as it is. -/
theorem mapChildren_eq_self {f : (c : Expr) → c ∈ e.children → σ → Option Expr × σ} {s : σ}
    (he : e.HasOperands) (hf : ∀ c hc t, (f c hc t).1 = some c) :
    (e.mapChildren f s).1 = some e := by
  cases e with
  | word | phrase | regex | doi | url => rfl
  | group operands =>
    have hcollect : (collect operands f s).1 = operands := collect_eq_self hf
    have hne : operands ≠ [] := he
    rw [mapChildren]
    simpa [hcollect] using hne
  | synonyms alternatives =>
    have hcollect : (collect alternatives f s).1 = alternatives := collect_eq_self hf
    have hne : alternatives ≠ [] := he
    rw [mapChildren]
    simpa [hcollect] using hne
  | range left right il ir =>
    have hleft := hf left List.mem_cons_self
    have hright := hf right (by simp [children])
    rw [mapChildren]
    split
    · rename_i t heq
      cases (congrArg Prod.fst heq).symm.trans (hleft s)
    · rename_i left' t heq
      cases (congrArg Prod.fst heq).symm.trans (hleft s)
      exact congrArg (Option.map _) (hright t)
  | field | boost | fuzzy | proximity | plus | minus =>
    exact congrArg (Option.map _) (hf _ (List.mem_singleton_self _) s)

/-! ### The state -/

/-- The state has a property after the members of a list if it had it before or if one of them
brings it about. -/
theorem collect_state_iff {α β : Type} {xs : List α} {f : (x : α) → x ∈ xs → σ → Option β × σ}
    {s : σ} {I : σ → Prop} {X : α → Prop} (hf : ∀ x hx t, I (f x hx t).2 ↔ I t ∨ X x) :
    I (collect xs f s).2 ↔ I s ∨ ∃ x ∈ xs, X x := by
  induction xs generalizing s with
  | nil => simp [collect]
  | cons x xs ih =>
    have hx : I (f x List.mem_cons_self s).2 ↔ I s ∨ X x := hf x _ s
    rw [collect]
    dsimp only
    rw [ih fun y hy t => hf y _ t, hx, or_assoc]
    simp

/-- **What the state records of the children of a node.** A range is left before its second bound if
there is no answer for the first one. What the second one would bring about is then brought about
by the first. -/
theorem mapChildren_state_iff {f : (c : Expr) → c ∈ e.children → σ → Option Expr × σ} {s : σ}
    {I : σ → Prop} {X : Expr → Prop} (hf : ∀ c hc t, I (f c hc t).2 ↔ I t ∨ X c)
    (hlost : ∀ left right il ir, e = range left right il ir → ∀ hc t, (f left hc t).1 = none →
      X right → X left) :
    I (e.mapChildren f s).2 ↔ I s ∨ ∃ c ∈ e.children, X c := by
  cases e with
  | word | phrase | regex | doi | url => simp [mapChildren, children]
  | group | synonyms => exact collect_state_iff hf
  | range left right il ir =>
    have hleft := hf left (by simp [children]) s
    have hbounds : (∃ c ∈ (range left right il ir).children, X c) ↔ X left ∨ X right := by
      simp [children]
    rw [hbounds, mapChildren]
    split
    · rename_i t hnone
      have hright : X right → X left :=
        hlost left right il ir rfl _ s (congrArg Prod.fst hnone)
      rw [hnone] at hleft
      rw [hleft, or_iff_left_of_imp hright]
    · rename_i left' t hsome
      rw [hsome] at hleft
      rw [← or_assoc, ← hleft]
      exact hf right (by simp [children]) t
  | field | boost | fuzzy | proximity | plus | minus =>
    simpa [mapChildren, children] using hf _ (List.mem_singleton_self _) s

/-- The answers for the members of a list do not depend on how the state is represented. -/
theorem collect_map_state {α β : Type} {xs : List α} {f : (x : α) → x ∈ xs → σ → Option β × σ}
    {g : (x : α) → x ∈ xs → τ → Option β × τ} {φ : σ → τ} {s : σ}
    (h : ∀ x hx s, g x hx (φ s) = (f x hx s).map id φ) :
    collect xs g (φ s) = (collect xs f s).map id φ := by
  induction xs generalizing s with
  | nil => rfl
  | cons x xs ih =>
    simp only [collect, h x, Prod.map_fst, Prod.map_snd, id_eq]
    rw [ih fun y hy s => h y _ s]
    rfl

/-- Nor do the answers for the children of a node, and the node that they make. -/
theorem mapChildren_map_state {f : (c : Expr) → c ∈ e.children → σ → Option Expr × σ}
    {g : (c : Expr) → c ∈ e.children → τ → Option Expr × τ} {φ : σ → τ} {s : σ}
    (h : ∀ c hc s, g c hc (φ s) = (f c hc s).map id φ) :
    e.mapChildren g (φ s) = (e.mapChildren f s).map id φ := by
  cases e with
  | word | phrase | regex | doi | url => rfl
  | group operands =>
    have hcollect : collect operands g (φ s) = (collect operands f s).map id φ :=
      collect_map_state h
    rw [mapChildren, mapChildren, hcollect]
    rfl
  | synonyms alternatives =>
    have hcollect : collect alternatives g (φ s) = (collect alternatives f s).map id φ :=
      collect_map_state h
    rw [mapChildren, mapChildren, hcollect]
    rfl
  | range left right il ir =>
    rw [mapChildren, mapChildren, h left (by simp [children]) s]
    rcases f left (by simp [children]) s with ⟨_ | left', t⟩
    · rfl
    · exact congrArg (Prod.map (Option.map _) id) (h right (by simp [children]) t)
  | field | boost | fuzzy | proximity | plus | minus =>
    exact congrArg (Prod.map (Option.map _) id) (h _ (List.mem_singleton_self _) s)

/-! ### Groups in groups -/

/-- The operands of a group, and any other tree as its own only operand. -/
def operands : Expr → List Expr
  | group es => es
  | e => [e]

theorem operands_of_ne_group (h : e.kind ≠ .group) : e.operands = [e] := by
  cases e with
  | group => exact absurd rfl h
  | _ => rfl

theorem HasOperands.operands_ne_nil (h : e.HasOperands) : e.operands ≠ [] := by
  cases e with
  | group => exact h
  | _ => exact List.cons_ne_nil _ _

theorem spliceGroups_cons (e : Expr) (es : List Expr) :
    spliceGroups (e :: es) = e.operands ++ spliceGroups es := by
  cases e <;> rfl

theorem mem_spliceGroups {es : List Expr} {d : Expr} :
    d ∈ spliceGroups es ↔ ∃ e ∈ es, d ∈ e.operands := by
  fun_induction spliceGroups es with
  | case1 => simp
  | case2 inner es ih => simp [ih, operands]
  | case3 e es hgroup ih =>
    have hkind : e.kind ≠ .group := by
      cases e with
      | group inner => exact absurd rfl (hgroup inner)
      | _ => exact Kind.noConfusion
    simp [ih, operands_of_ne_group hkind]

theorem spliceGroups_ne_nil {es : List Expr} (hne : es ≠ []) (h : ∀ e ∈ es, e.HasOperands) :
    spliceGroups es ≠ [] := by
  obtain ⟨e, he⟩ := List.exists_mem_of_ne_nil _ hne
  obtain ⟨d, hd⟩ := List.exists_mem_of_ne_nil _ (h e he).operands_ne_nil
  exact List.ne_nil_of_mem (mem_spliceGroups.2 ⟨e, he, hd⟩)

end SearchQuery.Expr
