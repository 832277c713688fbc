import SearchQuery.Proofs.Document.Matching
import SearchQuery.Proofs.Pass.Shaping

/-!
# Requirements and exclusions survive shaping

What is required or excluded at the root of a tree, or in the group at its root, still is when the
tree has been brought into the shape that the search engine takes: an entry that the document
matches has what is required and has not what is excluded.

## Several signs for one

A requirement of a group becomes the requirement of each of its operands, which is more than the
group asks for, so for a requirement one of the new signs is enough. An exclusion of a group becomes
the exclusion of each of its operands, and of each alternative, and for each atom of the group there
is a new sign that excludes it.

## Main results

* `matches_of_compile_of_shaped` — an entry has what is required and has not what is excluded
-/

namespace SearchQuery

open SearchQuery.Expr SearchQuery.Document

/-- **Requirements and exclusions survive shaping.** Take a regular tree and a sign at its root or
in the group at its root, with no sign below it. If the document of the shaped tree matches, then
what the tree below a requirement compiles to matches, and what the tree below an exclusion compiles
to does not, whichever leaf clauses are true. -/
theorem matches_of_compile_of_shaped {t e t' : Expr} {c : Context} {q qe : Document}
    {v : Document → Prop} (ht : t.Regular) (he : e.Unsigned)
    (hrun : (runPasses [.backendShape, .simplification] (some t) c).1 = some t')
    (hq : t'.compile = .ok q) (hqe : e.compile = .ok qe) (hmatches : q.Matches v) :
    (plus e ∈ t.operands → qe.Matches v) ∧ (minus e ∈ t.operands → ¬ qe.Matches v) := by
  have hatoms {e : Expr} {d : Document} (he : e.Neutral) (hd : e.compileAt none = .ok d) :
      d.Matches v ↔ ∃ a, e.Offers none a ∧ AtomHolds v a :=
    matches_of_compileAt_iff he hd
  constructor
  · intro hmem
    have hneutral : e.Neutral :=
      ((ht.of_mem_operands hmem).child rfl (List.mem_singleton_self e)).neutral he
    obtain ⟨a, ha⟩ := hneutral.exists_offers none
    obtain ⟨d, hd, e', rfl, hneutral', -, hold⟩ :=
      exists_carries_of_mem_operands (.inl rfl) hneutral ha hmem hrun
    obtain ⟨d', hd', hrequired⟩ := (matches_of_compile_of_mem_operands hq hmatches).1 hd
    obtain ⟨b, hb, htrue⟩ := (hatoms hneutral' hd').1 hrequired
    exact (hatoms hneutral hqe).2 ⟨b, hold b hb, htrue⟩
  · intro hmem hexcluded
    have hneutral : e.Neutral :=
      ((ht.of_mem_operands hmem).child rfl (List.mem_singleton_self e)).neutral he
    obtain ⟨a, ha, htrue⟩ := (hatoms hneutral hqe).1 hexcluded
    obtain ⟨d, hd, e', rfl, hneutral', ha', -⟩ :=
      exists_carries_of_mem_operands (.inr rfl) hneutral ha hmem hrun
    obtain ⟨d', hd', hmatches'⟩ := (matches_of_compile_of_mem_operands hq hmatches).2 hd
    exact hmatches' ((hatoms hneutral' hd').2 ⟨a, ha', htrue⟩)

/-- The title has one of two words, and neither of two others occurs. The requirement stays one,
with the field below it; the exclusion becomes two. -/
theorem matches_of_compile_of_shaped_title :
    ∃ (t t' required excluded : Expr) (q qr qe : Document),
      parse "+title:(rust go) -(old new) black" = .ok (some t) ∧ t.Regular ∧
      required.Unsigned ∧ excluded.Unsigned ∧ plus required ∈ t.operands ∧
      minus excluded ∈ t.operands ∧
      (runPasses [.backendShape, .simplification] (some t) {}).1 = some t' ∧
      t'.compile = .ok q ∧ required.compile = .ok qr ∧ excluded.compile = .ok qe ∧
      q.Matches (· = .term "title" "go") ∧ qr.Matches (· = .term "title" "go") ∧
      ¬ qe.Matches (· = .term "title" "go") := by
  have hparse : parse "+title:(rust go) -(old new) black" = .ok (some (.group [
      .plus (.field "title" (.group [.word "rust", .word "go"])),
      .minus (.group [.word "old", .word "new"]), .word "black"])) := by with_unfolding_all rfl
  have hword (v : String) : (Expr.word v).Regular := by
    refine .atom ⟨rfl, fun _ h => ?_⟩
    cases h
  have hregular : (Expr.group [.plus (.field "title" (.group [.word "rust", .word "go"])),
      .minus (.group [.word "old", .word "new"]), .word "black"]).Regular := by
    have hgroup (v w : String) : (Expr.group [.word v, .word w]).Regular :=
      .node rfl (List.cons_ne_nil _ _) (by simpa [children, Regular] using ⟨hword v, hword w⟩)
    have hfield : (Expr.field "title" (.group [.word "rust", .word "go"])).Regular :=
      .node rfl (List.cons_ne_nil _ _) (by simpa [children, Regular] using hgroup "rust" "go")
    have hplus : (Expr.plus (.field "title" (.group [.word "rust", .word "go"]))).Regular :=
      .node rfl (List.cons_ne_nil _ _) (by simpa [children, Regular] using hfield)
    have hminus : (Expr.minus (.group [.word "old", .word "new"])).Regular :=
      .node rfl (List.cons_ne_nil _ _) (by simpa [children, Regular] using hgroup "old" "new")
    have hblack := hword "black"
    exact .node rfl (List.cons_ne_nil _ _)
      (by simpa [children, Regular] using ⟨hplus, hminus, hblack⟩)
  have hrun : (runPasses [.backendShape, .simplification] (some (.group [
      .plus (.field "title" (.group [.word "rust", .word "go"])),
      .minus (.group [.word "old", .word "new"]), .word "black"])) {}).1 = some (.group [
        .plus (.group [.field "title" (.word "rust"), .field "title" (.word "go")]),
        .minus (.word "old"), .minus (.word "new"), .word "black"]) := by with_unfolding_all rfl
  have hrequired : (Expr.field "title" (.group [.word "rust", .word "go"])).Unsigned := by
    simp [Unsigned, kind, Kind.isSign]
  have hexcluded : (Expr.group [.word "old", .word "new"]).Unsigned := by
    simp [Unsigned, kind, Kind.isSign]
  have hmatches : (Document.boolean [
      (.must, .boolean [(.should, .term "title" "rust"), (.should, .term "title" "go")]),
      (.mustNot, .freeText "old"), (.mustNot, .freeText "new"),
      (.should, .freeText "black")]).Matches (· = .term "title" "go") := by
    simp [matches_boolean]
  have hsigns {e : Expr} {qe : Document} (he : e.Unsigned) (hqe : e.compile = .ok qe) :=
    matches_of_compile_of_shaped hregular he hrun rfl hqe hmatches
  exact ⟨_, _, _, _, _, _, _, hparse, hregular, hrequired, hexcluded, by simp [operands],
    by simp [operands], hrun, rfl, rfl, rfl, hmatches,
    (hsigns hrequired rfl).1 (by simp [operands]), (hsigns hexcluded rfl).2 (by simp [operands])⟩

end SearchQuery
