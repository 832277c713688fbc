import SearchQuery.Expr.Text
import SearchQuery.Proofs.Text.Quoted
import SearchQuery.Proofs.Tree.Sameness

/-!
# Trees are read off their outlines

An outline has a line for each node, a node before what is below it, and shows the depth of a node
by the indentation of its line. Nothing in it says where the children of a node end. They end where
the depth falls back, so a list of lines stands for one list of trees, and two trees have the same
outline exactly if they have the same normal form.

## Three steps

The text of an outline shows its lines, because no label holds a line end. A line shows its depth
and its label, because no label begins with a blank. A label shows the kind of a node and all that
the node holds apart from its children: the kind is what stands before the bracket, quoted texts
differ if the texts do, and numbers are written in their normal form.

## Main definitions

* `Kind.title` — what a label begins with
* `Expr.Follows` — what may come after the lines of some trees
* `Expr.IsEntry` — a depth with the label of a node

## Main results

* `Expr.normalize_eq_of_label_eq` — a label shows a node
* `Expr.normalizeAll_eq_of_entries_eq` — depths show where the children of a node end
* `Expr.outlineLine_append_inj` — a line shows its depth and its label
* `Expr.same_iff_outline_eq` — trees with the same outline
-/

namespace SearchQuery

/-! ### Labels -/

/-- What an outline calls a node of a kind. -/
def Kind.title : Kind → String
  | .word => "Word"
  | .phrase => "Phrase"
  | .regex => "Regex"
  | .doi => "Doi"
  | .url => "Url"
  | .field => "SearchField"
  | .group => "Group"
  | .synonyms => "SynonymsGroup"
  | .range => "Range"
  | .boost => "Boost"
  | .fuzzy => "Fuzzy"
  | .proximity => "Proximity"
  | .plus => "Plus"
  | .minus => "Minus"

theorem Kind.title_injective : Function.Injective Kind.title := by
  intro k k' h
  cases k <;> cases k' <;> first | rfl | simp [title] at h

theorem Number.numeral_injective : Function.Injective Number.numeral := by
  intro m n h
  have hdigits := congrArg Number.ofDigits (String.ofList_injective h)
  rwa [Number.ofDigits_digits, Number.ofDigits_digits] at hdigits

namespace Expr

theorem label_normalize (e : Expr) : e.normalize.label = e.label := by
  cases e with
  | boost | fuzzy => rw [normalize, label, label, Decimal.normalize_normalize]
  | _ => rfl

/-- A label begins with the title of the kind, and what follows is in brackets. -/
theorem takeWhile_label (e : Expr) :
    e.label.toList.takeWhile (· ≠ '(') = e.kind.title.toList := by
  cases e <;> simp [label, kind, Kind.title]

theorem outlineEntries_eq (depth : Nat) (e : Expr) :
    outlineEntries depth e = (depth, e.label) :: outlineEntriesOfAll (depth + 1) e.children := by
  cases e <;> simp [outlineEntries, outlineEntriesOfAll, children]

theorem kind_eq_of_label_eq {a b : Expr} (h : a.label = b.label) : a.kind = b.kind := by
  refine Kind.title_injective (String.toList_injective ?_)
  rw [← takeWhile_label, ← takeWhile_label, h]

theorem rangeLabel_inj {il ir jl jr : Bool}
    (h : "Range(" ++ boolText il ++ ", " ++ boolText ir ++ ")" =
      "Range(" ++ boolText jl ++ ", " ++ boolText jr ++ ")") : il = jl ∧ ir = jr := by
  revert il ir jl jr
  decide

/-- The normal form of a node is known by its label and the normal forms of its children. -/
theorem normalize_eq_of_label_eq {a b : Expr} (hlabel : a.label = b.label)
    (hchildren : normalizeAll a.children = normalizeAll b.children) :
    a.normalize = b.normalize := by
  have hkind := kind_eq_of_label_eq hlabel
  cases a <;> cases b <;> cases hkind
  case word.word | phrase.phrase | regex.regex | doi.doi | url.url =>
    simp only [label, String.append_left_inj, String.append_right_inj] at hlabel
    rw [Text.quote_injective hlabel]
  case field.field =>
    simp only [label, String.append_left_inj, String.append_right_inj] at hlabel
    rw [normalize, normalize, Text.quote_injective hlabel, (List.cons.inj hchildren).1]
  case group.group => exact congrArg group hchildren
  case synonyms.synonyms => exact congrArg synonyms hchildren
  case range.range =>
    obtain ⟨hleft, hrest⟩ := List.cons.inj hchildren
    obtain ⟨hil, hir⟩ := rangeLabel_inj hlabel
    rw [normalize, normalize, hleft, (List.cons.inj hrest).1, hil, hir]
  case boost.boost | fuzzy.fuzzy =>
    simp only [label, String.append_left_inj, String.append_right_inj] at hlabel
    rw [normalize, normalize, Decimal.text_injective hlabel, (List.cons.inj hchildren).1]
  case proximity.proximity =>
    simp only [label, String.append_left_inj, String.append_right_inj] at hlabel
    rw [normalize, normalize, UInt32.toNat_inj.1 (Number.numeral_injective hlabel),
      (List.cons.inj hchildren).1]
  case plus.plus | minus.minus => rw [normalize, normalize, (List.cons.inj hchildren).1]

/-! ### Trees from entries -/

/-- The children of the first of some trees are smaller than the trees. -/
theorem sizeOf_children_lt (e : Expr) (es : List Expr) :
    sizeOf e.children < sizeOf (e :: es) := by
  have hpos : 0 < sizeOf es := by cases es <;> simp
  cases e <;> simp [children] <;> omega

/-- What follows a list of trees is not below any of them. -/
def Follows (depth : Nat) (rest : List (Nat × String)) : Prop :=
  ∀ entry ∈ rest.head?, entry.1 < depth

theorem follows_outlineEntriesOfAll {depth : Nat} {rest : List (Nat × String)}
    (h : Follows depth rest) (es : List Expr) :
    Follows (depth + 1) (outlineEntriesOfAll depth es ++ rest) := by
  intro entry hentry
  cases es with
  | nil => exact Nat.lt_succ_of_lt (h entry hentry)
  | cons e es =>
    rw [outlineEntriesOfAll, outlineEntries_eq] at hentry
    cases Option.some.inj hentry
    exact Nat.lt_succ_self depth

/-- **Trees are read off their entries.** The children of a node are what comes after it at greater
depths. -/
theorem normalizeAll_eq_of_entries_eq {depth : Nat} {as bs : List Expr}
    {rest rest' : List (Nat × String)} (hrest : Follows depth rest) (hrest' : Follows depth rest')
    (h : outlineEntriesOfAll depth as ++ rest = outlineEntriesOfAll depth bs ++ rest') :
    normalizeAll as = normalizeAll bs ∧ rest = rest' := by
  cases as with
  | nil =>
    cases bs with
    | nil => exact ⟨rfl, h⟩
    | cons b bs =>
      rw [outlineEntriesOfAll, outlineEntriesOfAll, outlineEntries_eq, List.nil_append] at h
      exact absurd (hrest (depth, b.label) (by rw [h]; rfl)) (Nat.lt_irrefl depth)
  | cons a as =>
    cases bs with
    | nil =>
      rw [outlineEntriesOfAll, outlineEntriesOfAll, outlineEntries_eq, List.nil_append] at h
      exact absurd (hrest' (depth, a.label) (by rw [← h]; rfl)) (Nat.lt_irrefl depth)
    | cons b bs =>
      rw [outlineEntriesOfAll, outlineEntriesOfAll, outlineEntries_eq, outlineEntries_eq,
        List.append_assoc, List.append_assoc, List.cons_append, List.cons_append] at h
      obtain ⟨hentry, hbelow⟩ := List.cons.inj h
      have hsize := sizeOf_children_lt a as
      obtain ⟨hchildren, hafter⟩ := normalizeAll_eq_of_entries_eq
        (follows_outlineEntriesOfAll hrest as) (follows_outlineEntriesOfAll hrest' bs) hbelow
      obtain ⟨hsiblings, hrests⟩ := normalizeAll_eq_of_entries_eq hrest hrest' hafter
      refine ⟨?_, hrests⟩
      rw [normalizeAll, normalizeAll, hsiblings,
        normalize_eq_of_label_eq (congrArg Prod.snd hentry) hchildren]
termination_by sizeOf as
decreasing_by
  · subst_vars
    exact hsize
  · subst_vars
    simp +arith

/-! ### Entries from lines -/

theorem newline_not_mem_digits (n : Nat) : '\n' ∉ Number.digits n := by
  intro h
  exact absurd (Number.isDigit_of_mem_digits h) (by decide)

theorem newline_not_mem_positional (n scale : Nat) : '\n' ∉ Number.positional n scale := by
  by_cases hscale : scale = 0
  · rw [hscale]
    exact newline_not_mem_digits n
  · obtain ⟨whole, fraction, hparts, -, -, hdigits, -⟩ := Number.exists_positional_eq n hscale
    have hnone (cs : List Char) (hcs : ∀ c ∈ cs, c.isDigit = true) : '\n' ∉ cs :=
      fun h => absurd (hcs _ h) (by decide)
    rw [hparts, List.mem_append, List.mem_cons]
    have := hnone _ hdigits
    simp_all

theorem newline_not_mem_text (d : Decimal) : '\n' ∉ d.text.toList := by
  rw [Decimal.text, String.toList_ofList, Decimal.chars, List.mem_append, not_or]
  refine ⟨?_, newline_not_mem_positional _ _⟩
  split <;> simp

/-- A label is on one line. -/
theorem newline_not_mem_label (e : Expr) : '\n' ∉ e.label.toList := by
  cases e with
  | range _ _ il ir =>
    have hnone : ∀ il ir : Bool,
        '\n' ∉ ("Range(" ++ boolText il ++ ", " ++ boolText ir ++ ")").toList := by decide
    exact hnone il ir
  | word v | phrase v | regex v | doi v | url v =>
    simp [label, Text.newline_not_mem_quote]
  | field v => simp [label, Text.newline_not_mem_quote]
  | boost _ score | fuzzy _ score => simp [label, newline_not_mem_text]
  | proximity _ slop => simp [label, Number.numeral, newline_not_mem_digits]
  | group | synonyms | plus | minus => simp [label]

/-- A label begins with a letter. -/
theorem head?_label (e : Expr) : e.label.toList.head? ≠ some ' ' := by
  intro h
  obtain ⟨cs, hcs⟩ := List.head?_eq_some_iff.1 h
  have htitle := takeWhile_label e
  rw [hcs, List.takeWhile_cons_of_pos (by decide)] at htitle
  generalize e.kind = kind at htitle
  cases kind <;> simp [Kind.title] at htitle

/-- The indentation of a line shows its depth. -/
theorem eq_of_indent_eq {m n : Nat} {cs ds : List Char} (hcs : cs.head? ≠ some ' ')
    (hds : ds.head? ≠ some ' ')
    (h : List.replicate m ' ' ++ cs = List.replicate n ' ' ++ ds) : m = n ∧ cs = ds := by
  induction m generalizing n with
  | zero =>
    cases n with
    | zero => exact ⟨rfl, h⟩
    | succ n => exact absurd (congrArg List.head? h) hcs
  | succ m ih =>
    cases n with
    | zero => exact absurd (congrArg List.head? h.symm) hds
    | succ n =>
      obtain ⟨rfl, hrest⟩ := ih (List.cons.inj h).2
      exact ⟨rfl, hrest⟩

/-- The entry is that of a node. -/
def IsEntry (entry : Nat × String) : Prop := ∃ e : Expr, entry.2 = e.label

theorem isEntry_of_mem_outlineEntriesOfAll {depth : Nat} {es : List Expr}
    {entry : Nat × String} (h : entry ∈ outlineEntriesOfAll depth es) : IsEntry entry := by
  cases es with
  | nil => cases h
  | cons e es =>
    rw [outlineEntriesOfAll, outlineEntries_eq, List.cons_append, List.mem_cons,
      List.mem_append] at h
    have hsize := sizeOf_children_lt e es
    rcases h with rfl | hbelow | hafter
    · exact ⟨e, rfl⟩
    · exact isEntry_of_mem_outlineEntriesOfAll hbelow
    · exact isEntry_of_mem_outlineEntriesOfAll hafter
termination_by sizeOf es
decreasing_by
  · subst_vars
    exact hsize
  · subst_vars
    simp +arith

theorem outlineLine_ne_nil (entry : Nat × String) : outlineLine entry ≠ [] := by
  simp [outlineLine]

/-- **The first line of an outline shows its entry.** -/
theorem outlineLine_append_inj {x y : Nat × String} {cs ds : List Char} (hx : IsEntry x)
    (hy : IsEntry y) (h : outlineLine x ++ cs = outlineLine y ++ ds) : x = y ∧ cs = ds := by
  obtain ⟨m, label⟩ := x
  obtain ⟨n, label'⟩ := y
  obtain ⟨a, rfl⟩ : ∃ a : Expr, label = a.label := hx
  obtain ⟨b, rfl⟩ : ∃ b : Expr, label' = b.label := hy
  have hline (k : Nat) (e : Expr) :
      '\n' ∉ List.replicate (2 * k) ' ' ++ e.label.toList := by
    simp [newline_not_mem_label]
  have hparts : List.replicate (2 * m) ' ' ++ a.label.toList ++ '\n' :: cs =
      List.replicate (2 * n) ' ' ++ b.label.toList ++ '\n' :: ds := by
    simpa [outlineLine] using h
  obtain ⟨hentry, hrest⟩ := Text.eq_of_append_cons_eq (hline m a) (hline n b) hparts
  obtain ⟨hindent, hlabel⟩ := eq_of_indent_eq (head?_label a) (head?_label b) hentry
  have hdepth : m = n := by omega
  exact ⟨by rw [hdepth, String.toList_injective hlabel], hrest⟩

/-! ### Outlines -/

theorem outlineEntriesOfAll_normalizeAll (depth : Nat) (es : List Expr) :
    outlineEntriesOfAll depth (normalizeAll es) = outlineEntriesOfAll depth es := by
  cases es with
  | nil => rfl
  | cons e es =>
    have hsize := sizeOf_children_lt e es
    rw [normalizeAll, outlineEntriesOfAll, outlineEntriesOfAll, outlineEntries_eq,
      outlineEntries_eq, label_normalize, children_normalize, ← normalizeAll_eq_map,
      outlineEntriesOfAll_normalizeAll (depth + 1) e.children,
      outlineEntriesOfAll_normalizeAll depth es]
termination_by sizeOf es
decreasing_by
  · subst_vars
    exact hsize
  · subst_vars
    simp +arith

theorem outline_eq (e : Expr) :
    e.outline = String.ofList ((outlineEntriesOfAll 0 [e]).flatMap outlineLine) := by
  rw [outline, outlineEntriesOfAll, outlineEntriesOfAll, List.append_nil]

/-- An outline is that of the normal form. -/
theorem outline_normalize (e : Expr) : e.normalize.outline = e.outline := by
  have hentries := outlineEntriesOfAll_normalizeAll 0 [e]
  rw [normalizeAll, normalizeAll] at hentries
  rw [outline_eq, outline_eq, hentries]

theorem normalize_eq_of_outline_eq {a b : Expr} (h : a.outline = b.outline) :
    a.normalize = b.normalize := by
  rw [outline_eq, outline_eq] at h
  have hentries : outlineEntriesOfAll 0 [a] = outlineEntriesOfAll 0 [b] :=
    Text.eq_of_flatMap_eq outlineLine_ne_nil outlineLine_append_inj
      (fun _ => isEntry_of_mem_outlineEntriesOfAll)
      (fun _ => isEntry_of_mem_outlineEntriesOfAll) (String.ofList_injective h)
  have hends : Follows 0 [] := fun _ h => nomatch h
  have hforms := normalizeAll_eq_of_entries_eq hends hends (congrArg (· ++ []) hentries)
  exact (List.cons.inj hforms.1).1

/-- **Trees are the same query exactly if they have the same outline**, and then they have the same
text and the same document, or cannot be compiled for the same reason. -/
theorem same_iff_outline_eq (a b : Expr) :
    (same a b = true ↔ a.outline = b.outline) ∧
      (same a b = true → a.text = b.text ∧ a.compile = b.compile) := by
  rw [same_iff_normalize_eq]
  refine ⟨⟨fun h => ?_, normalize_eq_of_outline_eq⟩, fun h => ⟨?_, ?_⟩⟩
  · rw [← outline_normalize a, h, outline_normalize]
  · rw [← text_normalize a, h, text_normalize]
  · rw [← compile_normalize a, h, compile_normalize]

/-- The two trees are written with different places and are the same query, which cannot be compiled
because of the fuzzy word in the field. -/
theorem same_iff_outline_eq_places :
    ∃ a b : Expr,
      a = boost (field "title" (fuzzy (word "a") ⟨false, 50, 2, by decide, by decide⟩))
        ⟨false, 200, 2, by decide, by decide⟩ ∧
      b = boost (field "title" (fuzzy (word "a") ⟨false, 5, 1, by decide, by decide⟩))
        ⟨false, 2, 0, by decide, by decide⟩ ∧
      a ≠ b ∧ same a b = true ∧ a.outline = b.outline ∧ a.text = b.text ∧
      a.compile = b.compile := by
  refine ⟨_, _, rfl, rfl, by simp, ?_⟩
  have hsame : same
      (boost (field "title" (fuzzy (word "a") ⟨false, 50, 2, by decide, by decide⟩))
        ⟨false, 200, 2, by decide, by decide⟩)
      (boost (field "title" (fuzzy (word "a") ⟨false, 5, 1, by decide, by decide⟩))
        ⟨false, 2, 0, by decide, by decide⟩) = true := by decide
  obtain ⟨houtline, hshown⟩ := same_iff_outline_eq _ _
  exact ⟨hsame, houtline.1 hsame, hshown hsame⟩

end Expr

end SearchQuery
