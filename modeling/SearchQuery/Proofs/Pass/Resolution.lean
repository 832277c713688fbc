import SearchQuery.Proofs.Pass.Conservation
import SearchQuery.Proofs.Pass.Fields

/-!
# What becomes of a tree when the names of its fields are resolved

The pass over the names of fields changes the searches in fields and leaves every other node where
it is. What it makes of a tree can be said without running it: an accepted search takes the name
that its name stands for, and a rejected one becomes a group of that name and its expression. In
strict mode the rejected searches are taken out instead, and with them whatever cannot be without
them.

## Groups that the pass makes

The group that stands for a rejected search is a replacement that is kept, so the pass goes on with
its two operands. The name is a word and stays. The expression is the one that stood in the search,
and searches in it are treated as if they had stood there from the beginning.

## Notes on the way

In strict mode each removed search leaves a note, and a range is left at its first bound if that is
lost. What remains of a child does not depend on the notes, so the tree is described first. A bound
of a filled tree is only lost on account of a rejected search in it, and then that search has been
noted already.

## Main definitions

* `FieldSettings.loses` — nothing remains of the tree
* `FieldSettings.resolved` — what remains of a tree that is not lost
* `FieldSettings.typedTerms` — the terms of a tree, with the names of rejected searches among them

## Main results

* `FieldSettings.fst_parentsFirst_eq` — what the pass leaves of a tree
* `FieldSettings.terms_resolved` — the terms that are left when no search is taken out
* `FieldSettings.run_resolves` — the tree and the record after the pass
-/

namespace SearchQuery

open SearchQuery.Expr

/-- The context as if no search had been taken out. -/
def Context.clearFields (c : Context) : Context := { c with hasInvalidFields := false }

namespace FieldSettings

variable {s : FieldSettings} {e d : Expr} {c : Context} {parents : List Kind}

/-! ### Trees without their rejected searches -/

mutual

/-- Nothing remains of the tree. A search is lost if its field is rejected in strict mode, a group
is lost with the last of its operands, and any other node with one of its parts. -/
def loses (s : FieldSettings) : Expr → Bool
  | .word _ | .phrase _ | .regex _ | .doi _ | .url _ => false
  | .field name body => (s.strict && !s.isValid (s.canonical name)) || s.loses body
  | .group es | .synonyms es => s.losesAll es
  | .range left right _ _ => s.loses left || s.loses right
  | .boost body _ | .fuzzy body _ | .proximity body _ | .plus body | .minus body => s.loses body

/-- Nothing remains of any of the trees. -/
def losesAll (s : FieldSettings) : List Expr → Bool
  | [] => true
  | e :: es => s.loses e && s.losesAll es

end

mutual

/-- What remains of a tree that is not lost. -/
def resolved (s : FieldSettings) : Expr → Expr
  | .word v => .word v
  | .phrase v => .phrase v
  | .regex v => .regex v
  | .doi v => .doi v
  | .url v => .url v
  | .field name body =>
    if s.isValid (s.canonical name) then .field (s.canonical name) (s.resolved body)
    else .group [.word (s.canonical name), s.resolved body]
  | .group es => .group (s.resolvedAll es)
  | .synonyms es => .synonyms (s.resolvedAll es)
  | .range left right il ir => .range (s.resolved left) (s.resolved right) il ir
  | .boost body score => .boost (s.resolved body) score
  | .fuzzy body slop => .fuzzy (s.resolved body) slop
  | .proximity body slop => .proximity (s.resolved body) slop
  | .plus body => .plus (s.resolved body)
  | .minus body => .minus (s.resolved body)

/-- What remains of the trees that are not lost. -/
def resolvedAll (s : FieldSettings) : List Expr → List Expr
  | [] => []
  | e :: es => if s.loses e then s.resolvedAll es else s.resolved e :: s.resolvedAll es

end

/-- What remains of a tree, if anything does. -/
def remains? (s : FieldSettings) (e : Expr) : Option Expr :=
  if s.loses e then none else some (s.resolved e)

theorem remains?_eq_none_iff : s.remains? e = none ↔ s.loses e = true := by
  simp [remains?]

theorem losesAll_eq_true_iff {es : List Expr} :
    s.losesAll es = true ↔ ∀ e ∈ es, s.loses e = true := by
  induction es with
  | nil => simp [losesAll]
  | cons e es ih => simp [losesAll, ih]

theorem filterMap_remains? (s : FieldSettings) (es : List Expr) :
    es.filterMap s.remains? = s.resolvedAll es := by
  induction es with
  | nil => rfl
  | cons e es ih =>
    rw [resolvedAll, List.filterMap_cons, remains?, ih]
    cases s.loses e <;> rfl

/-- A group of which every operand is lost is lost. -/
theorem gather_remains? (s : FieldSettings) (make : List Expr → Expr) (es : List Expr) :
    gather make (es.filterMap s.remains?) =
      if s.losesAll es then none else some (make (s.resolvedAll es)) := by
  by_cases hlost : s.losesAll es = true
  · have hnone : es.filterMap s.remains? = [] :=
      List.filterMap_eq_nil_iff.2 fun e he =>
        remains?_eq_none_iff.2 (losesAll_eq_true_iff.1 hlost e he)
    rw [hnone, if_pos hlost]
    rfl
  · have hne : es.filterMap s.remains? ≠ [] := by
      intro hnil
      refine hlost (losesAll_eq_true_iff.2 fun e he => ?_)
      exact remains?_eq_none_iff.1 (List.filterMap_eq_nil_iff.1 hnil e he)
    rw [gather_of_ne_nil hne, filterMap_remains?, if_neg hlost]

/-- A node with one part is lost with it. -/
theorem map_remains? {make : Expr → Expr} {body : Expr} (hloses : s.loses e = s.loses body)
    (hresolved : s.resolved e = make (s.resolved body)) :
    (s.remains? body).map make = s.remains? e := by
  rw [remains?, remains?, hloses, hresolved]
  cases s.loses body <;> rfl

/-! ### What is lost -/

/-- A filled tree is only lost on account of a rejected search in it. -/
theorem reaches_of_loses (he : e.Filled) (h : s.loses e = true) :
    s.strict = true ∧ e.Reaches (fun _ => False) s.Rejects := by
  induction he with
  | @intro e root _ ih =>
    have hchild {d : Expr} (hd : d ∈ e.children) (hlost : s.loses d = true) :
        s.strict = true ∧ e.Reaches (fun _ => False) s.Rejects :=
      (ih d hd hlost).imp_right fun hreaches => .there id hd hreaches
    have hoperand {es : List Expr} (hes : e.children = es) (hne : es ≠ [])
        (hlost : s.losesAll es = true) :
        s.strict = true ∧ e.Reaches (fun _ => False) s.Rejects := by
      obtain ⟨d, hd⟩ := List.exists_mem_of_ne_nil es hne
      exact hchild (hes ▸ hd) (losesAll_eq_true_iff.1 hlost d hd)
    cases e with
    | word | phrase | regex | doi | url => cases h
    | field name body =>
      rw [loses, Bool.or_eq_true, Bool.and_eq_true, Bool.not_eq_true'] at h
      rcases h with ⟨hstrict, hvalid⟩ | hbody
      · exact ⟨hstrict, .here id ⟨name, rfl, hvalid⟩⟩
      · exact hchild List.mem_cons_self hbody
    | group es => exact hoperand rfl root h
    | synonyms es => exact hoperand rfl root h
    | range left right il ir =>
      rw [loses, Bool.or_eq_true] at h
      rcases h with hleft | hright
      · exact hchild (by simp [children]) hleft
      · exact hchild (by simp [children]) hright
    | boost | fuzzy | proximity | plus | minus => exact hchild List.mem_cons_self h

theorem loses_eq_false (hstrict : s.strict = false) (he : e.Filled) : s.loses e = false := by
  by_contra hlost
  have hstrict' : s.strict = true := (reaches_of_loses he (by simpa using hlost)).1
  simp [hstrict] at hstrict'

theorem resolvedAll_eq_map {es : List Expr} (hstrict : s.strict = false)
    (hes : ∀ e ∈ es, e.Filled) : s.resolvedAll es = es.map s.resolved := by
  rw [← filterMap_remains?]
  refine List.filterMap_eq_map_iff_forall_eq_some.2 fun e he => ?_
  rw [remains?, loses_eq_false hstrict (hes e he)]
  rfl

/-! ### The tree after the pass -/

theorem remains?_of_remove (h : (s.transform e parents c).1 = .remove) : s.remains? e = none := by
  obtain ⟨_, _, rfl, ⟨-, hstep⟩ | ⟨hvalid, hstrict, -⟩ | ⟨-, -, hstep⟩⟩ | ⟨-, hstep⟩ :=
    s.transform_cases e parents c
  · rw [hstep] at h
    cases h
  · simp [remains?, loses, hvalid, hstrict]
  · rw [hstep] at h
    cases h
  · rw [hstep] at h
    cases h

/-- The name of a rejected search and its expression, which is not lost either. -/
theorem rebuild_remains?_of_demoted {name : String} {body : Expr} (hstrict : s.strict = false)
    (hvalid : s.isValid (s.canonical name) = false) (hbody : body.Filled) :
    (group [word (s.canonical name), body]).rebuild s.remains? = s.remains? (.field name body) := by
  have hlost : s.loses body = false := loses_eq_false hstrict hbody
  have hword : s.remains? (word (s.canonical name)) = some (word (s.canonical name)) := rfl
  have hrest : s.remains? body = some (s.resolved body) := by
    rw [remains?, hlost]
    rfl
  rw [rebuild_group, List.filterMap_cons_some hword, List.filterMap_cons_some hrest,
    List.filterMap_nil, remains?, loses, resolved, hvalid, hstrict, hlost]
  rfl

/-- What remains of a node is its replacement with what remains of the children of that. -/
theorem rebuild_remains? (he : e.Filled) (h : (s.transform e parents c).1 = .keep d) :
    d.rebuild s.remains? = s.remains? e := by
  cases e with
  | word | phrase | regex | doi | url =>
    cases h
    rfl
  | field name body =>
    have hbody : body.Filled := he.child List.mem_cons_self
    obtain ⟨_, _, ⟨⟩, ⟨hvalid, hstep⟩ | ⟨-, -, hstep⟩ | ⟨hvalid, hstrict, hstep⟩⟩ |
      ⟨hnofield, -⟩ := s.transform_cases (.field name body) parents c
    · rw [hstep] at h
      cases h
      exact map_remains? (by simp [loses, hvalid]) (by rw [resolved, if_pos hvalid])
    · rw [hstep] at h
      cases h
    · rw [hstep] at h
      cases h
      exact rebuild_remains?_of_demoted hstrict hvalid hbody
    · exact absurd rfl (hnofield name body)
  | group es =>
    cases h
    rw [rebuild_group, gather_remains?]
    rfl
  | synonyms es =>
    cases h
    rw [rebuild_synonyms, gather_remains?]
    rfl
  | range left right il ir =>
    cases h
    rw [rebuild_range, remains?, remains?, remains?, loses, resolved]
    cases s.loses left <;> cases s.loses right <;> rfl
  | boost | fuzzy | proximity | plus | minus =>
    cases h
    exact map_remains? (by rw [loses]) (by rw [resolved])

/-- **What the pass leaves of a filled tree**, whatever is known about the query. -/
theorem fst_parentsFirst_eq {parents : List Kind} {e : Expr} (he : e.Filled) (c : Context) :
    ((Pass.fields s).parentsFirst parents e c).1 = s.remains? e := by
  cases houtcome : (s.transform e parents c).1 with
  | remove =>
    rw [Pass.parentsFirst_of_remove rfl (Prod.ext houtcome rfl), remains?_of_remove houtcome]
  | final d => exact absurd houtcome transform_ne_final
  | keep d =>
    have htree : (s.transform e parents c).1.tree? = some d := congrArg Outcome.tree? houtcome
    have hd : d.Filled := (preserves_filledIn (fun _ _ => trivial) he.filledIn htree).filled
    rw [Pass.parentsFirst_of_keep rfl (Prod.ext houtcome rfl), ← rebuild_remains? he houtcome]
    refine fst_mapChildren fun child hchild c => ?_
    have hweight : child.weight < e.weight :=
      s.transform_descends e parents _ d houtcome child hchild
    exact fst_parentsFirst_eq (hd.child hchild) c
termination_by e.weight

/-! ### The record after the pass -/

theorem recordsBounds_of_filled (he : e.Filled) : s.RecordsBounds e := by
  induction he with
  | @intro e root below ih =>
    refine ⟨fun _ left right hchildren parents c hnone => ?_, ih⟩
    have hleft : left.Filled := below left (by simp [hchildren])
    rw [fst_parentsFirst_eq hleft, remains?_eq_none_iff] at hnone
    exact (reaches_of_loses hleft hnone).2

theorem snd_transform_of_not_strict (hstrict : s.strict = false) (e : Expr)
    (parents : List Kind) (c : Context) : (s.transform e parents c).2 = c := by
  obtain ⟨_, _, -, ⟨-, hstep⟩ | ⟨-, hstrict', -⟩ | ⟨-, -, hstep⟩⟩ | ⟨-, hstep⟩ :=
    s.transform_cases e parents c
  · rw [hstep]
  · cases hstrict.symm.trans hstrict'
  · rw [hstep]
  · rw [hstep]

/-- Nothing is recorded when no search is taken out. -/
theorem snd_run_of_not_strict (hstrict : s.strict = false) (e : Expr) (c : Context) :
    ((Pass.fields s).run e c).2 = c := by
  have hview : (Pass.fields s).KeepsView (id : Context → Context) :=
    Pass.keepsView_of_transform
      (Transform.keepsView_of_snd (snd_transform_of_not_strict hstrict))
  exact hview e c

/-- A search that is taken out is recorded in one place only. -/
theorem snd_run_eq (s : FieldSettings) (e : Expr) (c : Context) :
    ((Pass.fields s).run e c).2 =
      { c with hasInvalidFields := ((Pass.fields s).run e c).2.hasInvalidFields } := by
  have hview : (Pass.fields s).KeepsView Context.clearFields :=
    Pass.keepsView_of_transform (s.keepsView fun _ => rfl)
  have hput (d : Context) : d = { d.clearFields with hasInvalidFields := d.hasInvalidFields } := rfl
  rw [hput ((Pass.fields s).run e c).2, hview e c]
  rfl

/-! ### Terms -/

/-- The term that stands for a node when no search is taken out: a term for itself, and the name of
a rejected search for the search. -/
def typedTerm? (s : FieldSettings) : Expr → Option Expr
  | .field name _ =>
    if s.isValid (s.canonical name) then none else some (.word (s.canonical name))
  | e => if e.value?.isSome then some e else none

/-- The terms of a tree from left to right, with the name of each rejected search just before the
terms of its expression. -/
def typedTerms (s : FieldSettings) (e : Expr) : List Expr :=
  ((e.visits fun _ => false).map (·.1)).filterMap s.typedTerm?

theorem typedTerms_eq (s : FieldSettings) (e : Expr) :
    s.typedTerms e = (s.typedTerm? e).toList ++ e.children.flatMap s.typedTerms :=
  found_eq s.typedTerm? e

/-- A node that stands for no term itself and only has its children resolved. -/
theorem terms_resolved_of_children (hterm : s.typedTerm? e = none)
    (hvalue : (s.resolved e).value? = none)
    (hchildren : (s.resolved e).children = e.children.map s.resolved)
    (h : ∀ d ∈ e.children, (s.resolved d).terms = s.typedTerms d) :
    (s.resolved e).terms = s.typedTerms e := by
  rw [typedTerms_eq, hterm, terms_of_value?_eq_none hvalue, hchildren, List.flatMap_map]
  exact List.flatMap_congr h

/-- **The terms that are left when no search is taken out.** -/
theorem terms_resolved (hstrict : s.strict = false) (he : e.Filled) :
    (s.resolved e).terms = s.typedTerms e := by
  induction he with
  | @intro e root below ih =>
    cases e with
    | word | phrase | regex | doi | url =>
      rw [typedTerms_eq]
      exact terms_of_value?_isSome rfl
    | field name body =>
      have hbody : (s.resolved body).terms = s.typedTerms body := ih body List.mem_cons_self
      by_cases hvalid : s.isValid (s.canonical name) = true
      · have hkept : s.resolved (field name body) = field (s.canonical name) (s.resolved body) := by
          rw [resolved, if_pos hvalid]
        refine terms_resolved_of_children (if_pos hvalid) ?_ ?_ ih
        · rw [hkept]
          rfl
        · rw [hkept]
          rfl
      · have hword : (word (s.canonical name)).terms = [word (s.canonical name)] :=
          terms_of_value?_isSome rfl
        rw [resolved, if_neg hvalid, typedTerms_eq, typedTerm?, if_neg hvalid,
          terms_of_value?_eq_none rfl]
        simp [children, hword, hbody]
    | group es =>
      exact terms_resolved_of_children rfl rfl (resolvedAll_eq_map hstrict below) ih
    | synonyms es =>
      exact terms_resolved_of_children rfl rfl (resolvedAll_eq_map hstrict below) ih
    | range | boost | fuzzy | proximity | plus | minus =>
      exact terms_resolved_of_children rfl rfl rfl ih

/-! ### The pass -/

/-- **What the pass makes of a filled tree.** The names of the fields that are left are valid. If no
search may be taken out, each rejected one becomes a group of the name that its name stands for and
its expression, that name comes just before the terms of the expression, and nothing is recorded.
In strict mode the rejected searches are taken out, with the nodes that lose a part or their last
operand by it, and the record says so if and only if there was such a search. In both modes an
accepted search stays where it is under the name that its name stands for, and the other nodes that
remain are the same as before. -/
theorem run_resolves (s : FieldSettings) {t : Expr} (ht : t.Filled) (c : Context) :
    (∀ d, ((Pass.fields s).run t c).1 = some d →
      d.FilledIn fun name => s.isValid name = true) ∧
    (s.strict = false → (Pass.fields s).run t c = (some (s.resolved t), c) ∧
      (s.resolved t).terms = s.typedTerms t) ∧
    (s.strict = true →
      ((Pass.fields s).run t c).1 = (if s.loses t then none else some (s.resolved t)) ∧
      ∃ b, ((Pass.fields s).run t c).2 = { c with hasInvalidFields := b } ∧
        (b = true ↔ c.hasInvalidFields = true ∨ t.Reaches (fun _ => False) s.Rejects)) := by
  have htree : ((Pass.fields s).run t c).1 = s.remains? t := fst_parentsFirst_eq ht c
  refine ⟨fun d hd => filledIn_of_run ht hd, fun hstrict => ⟨?_, terms_resolved hstrict ht⟩,
    fun hstrict => ⟨htree, _, snd_run_eq s t c, ?_⟩⟩
  · have hkept : s.remains? t = some (s.resolved t) := by
      rw [remains?, loses_eq_false hstrict ht]
      rfl
    exact Prod.ext (htree.trans hkept) (snd_run_of_not_strict hstrict t c)
  · exact hasInvalidFields_parentsFirst_iff hstrict (recordsBounds_of_filled ht)

/-- One field, an alias of it and an alias of a field that may not be searched. -/
def titleOnly (strict : Bool) : FieldSettings where
  valid := ["title"]
  strict
  aliases := [("o", "old"), ("t", "title")]

/-- The search in the old field is in an accepted one, where its name becomes a word, and the
required search leaves two words. In strict mode nothing is left of the requirement. -/
theorem run_resolves_title :
    ∃ t : Expr, t = .group [.field "t" (.group [.word "a", .field "o" (.word "b")]),
        .plus (.field "secret" (.phrase "c"))] ∧ t.Filled ∧
      (Pass.fields (titleOnly false)).run t {} =
        (some (.group [.field "title" (.group [.word "a", .group [.word "old", .word "b"]]),
          .plus (.group [.word "secret", .phrase "c"])]), {}) ∧
      (Pass.fields (titleOnly true)).run t {} =
        (some (.group [.field "title" (.group [.word "a"])]), { hasInvalidFields := true }) := by
  refine ⟨_, rfl, ?_⟩
  have ht : (Expr.group [.field "t" (.group [.word "a", .field "o" (.word "b")]),
      .plus (.field "secret" (.phrase "c"))]).Filled := by
    simp [Expr.Filled, HasOperands]
  obtain ⟨-, hplain, -⟩ := run_resolves (titleOnly false) ht {}
  obtain ⟨-, -, hstrict⟩ := run_resolves (titleOnly true) ht {}
  obtain ⟨htree, b, hrecord, hb⟩ := hstrict rfl
  have hlost : b = true := by
    refine hb.2 (.inr (.there id (List.mem_cons_of_mem _ List.mem_cons_self) ?_))
    exact .there id List.mem_cons_self (.here id ⟨"secret", rfl, by decide⟩)
  rw [hlost] at hrecord
  exact ⟨ht, (hplain rfl).1, Prod.ext htree hrecord⟩

end FieldSettings

end SearchQuery
