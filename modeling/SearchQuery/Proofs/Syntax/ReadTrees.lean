import SearchQuery.Proofs.Syntax.Legibility
import SearchQuery.Proofs.Tree.Terms

/-!
# What a tree that was read looks like

The type of trees excludes nothing, and passes and printers rely on what the parser never yields: a
boost under a sign, a range between fuzzy words, a group that ends in a group, a word that ends in
the middle of an escape. Here it is said node by node, so that a statement about some node of a tree
that was read has its facts at hand.

## A node and what stands around it

The normal form says of each node what it may hold. Where a boost may stand is a matter of the node
above it, so that a sign, say, holds none. Here that is said of the boost itself: a node is looked
at together with the kinds of the nodes around it, as a look at a tree finds them, and what is known
of the root is carried down.

## Main definitions

* `pairsEscapes` — the backslashes of a text have characters of their own
* `Expr.FitsBelow` — what a node may hold, and what may stand around it

## Main results

* `fitsBelow_of_parse` — the nodes of a tree that was read
-/

namespace SearchQuery

/-- Whether every backslash has the character after it for itself, taken from left to right. -/
def pairsEscapes : List Char → Bool
  | [] => true
  | ['\\'] => false
  | '\\' :: _ :: cs => pairsEscapes cs
  | _ :: cs => pairsEscapes cs

theorem pairsEscapes_cons {c : Char} (hc : c ≠ '\\') (cs : List Char) :
    pairsEscapes (c :: cs) = pairsEscapes cs :=
  pairsEscapes.eq_4 _ _ (fun h _ => hc h) (fun _ _ h _ => hc h)

theorem TermBody.pairsEscapes {cs : List Char} (h : TermBody cs) : pairsEscapes cs = true := by
  induction h with
  | nil => rfl
  | char hc _ ih => rw [pairsEscapes_cons (ne_backslash_of_isTermChar hc), ih]
  | escape _ ih => exact ih

namespace Expr

/-- Whether a boost may stand right below the last of these nodes, or at the root. -/
def HoldsBoosts (parents : List Kind) : Prop :=
  ∀ k ∈ parents.getLast?, k = .group ∨ k = .boost

/-- What holds of the node of a tree that was read, where nodes of the kinds `parents` stand around
it, outermost first. -/
def FitsBelow (parents : List Kind) : Expr → Prop
  | word v => v ≠ "" ∧ pairsEscapes v.toList = true
  | phrase _ | regex _ | doi _ | url _ => True
  | field name _ => Text.lower name = name
  | group operands => operands ≠ [] ∧ ∀ e ∈ operands.getLast?, e.kind ≠ .group
  | synonyms _ => False
  | range left right _ _ => ∀ e ∈ [left, right], e.kind = .word ∨ e.kind = .phrase
  | boost _ score => Lexicon.IsPlainScore score ∧ HoldsBoosts parents
  | fuzzy term slop => term.kind = .word ∧ Lexicon.IsPlainScore slop
  | proximity term _ => term.kind = .phrase
  | plus _ | minus _ => True

/-! ### Down from the root -/

variable {e : Expr} {parents : List Kind}

theorem forall_mem_visitsBelow_iff {P : Expr × List Kind → Prop} :
    (∀ v ∈ e.visitsBelow (fun _ => false) parents, P v) ↔
      P (e, parents) ∧ ∀ c ∈ e.children,
        ∀ v ∈ c.visitsBelow (fun _ => false) (parents ++ [e.kind]), P v := by
  rw [visitsBelow_eq, if_neg (by simp), List.forall_mem_cons]
  simp only [List.mem_flatMap, forall_exists_index, and_imp]
  exact and_congr_right fun _ => ⟨fun h c hc v => h v c hc, fun h v c hc => h c hc v⟩

theorem fitsBelow_word {v : String} (h : IsWord v.toList) : (word v).FitsBelow parents := by
  refine ⟨?_, h.body.pairsEscapes⟩
  rintro rfl
  obtain ⟨c, ds, hcs, -⟩ := h.starts
  cases hcs

/-- A bound of a range has nothing below it. -/
theorem IsBound.fitsBelow (h : e.IsBound Lexicon.readable) :
    ∀ v ∈ e.visitsBelow (fun _ => false) parents, v.1.FitsBelow v.2 := by
  cases h with
  | word h => exact forall_mem_visitsBelow_iff.2 ⟨fitsBelow_word h.1, by simp [children]⟩
  | phrase => exact forall_mem_visitsBelow_iff.2 ⟨trivial, by simp [children]⟩

theorem IsBound.kind_eq {L : Lexicon} (h : e.IsBound L) : e.kind = .word ∨ e.kind = .phrase := by
  cases h with
  | word => exact .inl rfl
  | phrase => exact .inr rfl

theorem holdsBoosts_append (parents : List Kind) (k : Kind) :
    HoldsBoosts (parents ++ [k]) ↔ k = .group ∨ k = .boost := by
  simp [HoldsBoosts]

/-- The nodes of a normal form fit where they stand, if it fits itself where it stands. -/
theorem Normal.fitsBelow (h : e.Normal Lexicon.readable)
    (hboost : e.kind = .boost → HoldsBoosts parents) :
    ∀ v ∈ e.visitsBelow (fun _ => false) parents, v.1.FitsBelow v.2 := by
  induction h generalizing parents with
  | word h => exact forall_mem_visitsBelow_iff.2 ⟨fitsBelow_word h.1, by simp [children]⟩
  | reserved h =>
    exact forall_mem_visitsBelow_iff.2 ⟨fitsBelow_word (isWord_of_reserved h), by simp [children]⟩
  | phrase | regex | url | doi =>
    exact forall_mem_visitsBelow_iff.2 ⟨trivial, by simp [children]⟩
  | field hname _ hkind ih =>
    refine forall_mem_visitsBelow_iff.2 ⟨hname.2, List.forall_mem_singleton.2 ?_⟩
    exact ih fun h => absurd h hkind
  | group hne _ hlast ih =>
    refine forall_mem_visitsBelow_iff.2 ⟨⟨hne, hlast⟩, fun c hc => ih c hc fun _ => ?_⟩
    exact (holdsBoosts_append ..).2 (.inl rfl)
  | range hleft hright =>
    refine forall_mem_visitsBelow_iff.2 ⟨?_, ?_⟩
    · exact List.forall_mem_cons.2 ⟨hleft.kind_eq, List.forall_mem_singleton.2 hright.kind_eq⟩
    · exact List.forall_mem_cons.2
        ⟨hleft.fitsBelow, List.forall_mem_singleton.2 hright.fitsBelow⟩
  | boost _ hscore ih =>
    refine forall_mem_visitsBelow_iff.2 ⟨⟨hscore, hboost rfl⟩, List.forall_mem_singleton.2 ?_⟩
    exact ih fun _ => (holdsBoosts_append ..).2 (.inr rfl)
  | fuzzy h hslop =>
    refine forall_mem_visitsBelow_iff.2 ⟨⟨rfl, hslop⟩, List.forall_mem_singleton.2 ?_⟩
    exact (IsBound.word h).fitsBelow
  | proximity h =>
    refine forall_mem_visitsBelow_iff.2 ⟨rfl, List.forall_mem_singleton.2 ?_⟩
    exact (IsBound.phrase h).fitsBelow
  | plus _ hkind ih | minus _ hkind ih =>
    refine forall_mem_visitsBelow_iff.2 ⟨trivial, List.forall_mem_singleton.2 ?_⟩
    exact ih fun h => absurd h hkind

end Expr

/-! ### Texts -/

/-- **The nodes of a tree that was read.** Each node fits where it stands. -/
theorem fitsBelow_of_parse {s : String} {e : Expr} (h : parse s = .ok (some e)) :
    ∀ v ∈ e.visits fun _ => false, v.1.FitsBelow v.2 :=
  (normal_of_parse h).fitsBelow fun _ _ hk => by simp at hk

theorem fitsBelow_of_parse_boosted :
    parse "Title:-(a\\) [b TO \"c\"\x7d^) d~" = .ok (some (.group [
      .field "title" (.minus (.group [.word "a\\)",
        .boost (.range (.word "b") (.phrase "c") true false) .one])),
      .fuzzy (.word "d") .half])) ∧
    ∀ v ∈ (Expr.group [
      .field "title" (.minus (.group [.word "a\\)",
        .boost (.range (.word "b") (.phrase "c") true false) .one])),
      .fuzzy (.word "d") .half]).visits fun _ => false, v.1.FitsBelow v.2 := by
  have h : parse "Title:-(a\\) [b TO \"c\"\x7d^) d~" = .ok (some (.group [
      .field "title" (.minus (.group [.word "a\\)",
        .boost (.range (.word "b") (.phrase "c") true false) .one])),
      .fuzzy (.word "d") .half])) := by with_unfolding_all rfl
  exact ⟨h, fitsBelow_of_parse h⟩

end SearchQuery
