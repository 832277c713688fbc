import SearchQuery.Text.Brackets

/-!
# Brackets are nested once the unmatched ones are gone

A list with opening and closing members is nested if no prefix closes more than it opens and all
of it closes what it opens. Of a text, the members are the characters that no backslash hides.

## One kind at a time

The two passes are about one kind of brackets. What they drop are brackets of that kind, so they
change nothing for another kind. And they drop exposed characters only: a backslash stays before
the character it hides, and what is left is exposed as it was.

## Main definitions

* `Nested` — no prefix closes more than it opens, the whole closes what it opens
* `depthAfter` — how many brackets are open at the end
* `Exposed` — the characters with the flags that `exposure` gives them
* `Paired` — every backslash has its character

## Main results

* `nested_iff_depthAfter` — nested lists are the ones that end as they begin
* `nested_dropUnmatched` — the two passes leave the brackets of their kind nested
* `nested_exposure_removeUnmatchedChars` — no kind of brackets is left unbalanced
* `exposure_append` — a text in which every backslash has its character is exposed by itself
-/

namespace SearchQuery

section Nesting

variable {α : Type} (opens closes : α → Bool)

/-- No prefix closes more than it opens, and all of it closes as much as it opens. -/
structure Nested (xs : List α) : Prop where
  /-- Whatever is closed was opened before. -/
  opened : ∀ ys, ys <+: xs → ys.countP closes ≤ ys.countP opens
  /-- Whatever is opened is closed. -/
  closed : xs.countP closes = xs.countP opens

/-- How many brackets are open at the end if `depth` are at the start; nothing if one is closed
that is not open. -/
def depthAfter : Nat → List α → Option Nat
  | depth, [] => some depth
  | depth, x :: xs =>
    if opens x then depthAfter (depth + 1) xs
    else if closes x then
      match depth with
      | 0 => none
      | d + 1 => depthAfter d xs
    else depthAfter depth xs

variable {opens closes}

theorem depthAfter_cons_opens {x : α} (h : opens x = true) (d : Nat) (xs : List α) :
    depthAfter opens closes d (x :: xs) = depthAfter opens closes (d + 1) xs := by
  simp only [depthAfter, h, if_true]

theorem depthAfter_cons_closes {x : α} (h : opens x = false) (h' : closes x = true) (d : Nat)
    (xs : List α) :
    depthAfter opens closes (d + 1) (x :: xs) = depthAfter opens closes d xs := by
  simp only [depthAfter, h, h', Bool.false_eq_true, if_true, if_false]

theorem depthAfter_zero_cons_closes {x : α} (h : opens x = false) (h' : closes x = true)
    (xs : List α) : depthAfter opens closes 0 (x :: xs) = none := by
  simp only [depthAfter, h, h', Bool.false_eq_true, if_true, if_false]

theorem depthAfter_cons_other {x : α} (h : opens x = false) (h' : closes x = false) (d : Nat)
    (xs : List α) : depthAfter opens closes d (x :: xs) = depthAfter opens closes d xs := by
  simp only [depthAfter, h, h', Bool.false_eq_true, if_false]

theorem depthAfter_append (d : Nat) (xs ys : List α) :
    depthAfter opens closes d (xs ++ ys) =
      (depthAfter opens closes d xs).bind fun e => depthAfter opens closes e ys := by
  induction xs generalizing d with
  | nil => rfl
  | cons x xs ih =>
    rw [List.cons_append]
    by_cases hopens : opens x = true
    · rw [depthAfter_cons_opens hopens, depthAfter_cons_opens hopens, ih]
    rw [Bool.not_eq_true] at hopens
    by_cases hcloses : closes x = true
    · cases d with
      | zero =>
        rw [depthAfter_zero_cons_closes hopens hcloses,
          depthAfter_zero_cons_closes hopens hcloses, Option.bind_none]
      | succ d =>
        rw [depthAfter_cons_closes hopens hcloses, depthAfter_cons_closes hopens hcloses, ih]
    · rw [Bool.not_eq_true] at hcloses
      rw [depthAfter_cons_other hopens hcloses, depthAfter_cons_other hopens hcloses, ih]

/-- Members that are no brackets do not count. -/
theorem depthAfter_of_forall {xs : List α} (h : ∀ x ∈ xs, opens x = false ∧ closes x = false)
    (d : Nat) : depthAfter opens closes d xs = some d := by
  induction xs with
  | nil => rfl
  | cons x xs ih =>
    rw [List.forall_mem_cons] at h
    rw [depthAfter_cons_other h.1.1 h.1.2, ih h.2]

/-- The depth at the end, by counting. -/
theorem depthAfter_eq_some_iff (hdisjoint : ∀ x, opens x = true → closes x = false) {d e : Nat}
    {xs : List α} : depthAfter opens closes d xs = some e ↔
      (∀ ys, ys <+: xs → ys.countP closes ≤ d + ys.countP opens) ∧
        d + xs.countP opens = e + xs.countP closes := by
  induction xs generalizing d with
  | nil =>
    simp only [depthAfter, Option.some.injEq, List.prefix_nil, List.countP_nil, forall_eq]
    omega
  | cons x xs ih =>
    -- the prefixes are the empty list and those of the tail with the first member
    have hfront : (∀ ys, ys <+: x :: xs → ys.countP closes ≤ d + ys.countP opens) ↔
        ∀ ys, ys <+: xs → (x :: ys).countP closes ≤ d + (x :: ys).countP opens := by
      constructor
      · exact fun h ys hys => h _ (List.prefix_cons_iff.2 (.inr ⟨ys, rfl, hys⟩))
      · intro h ys hys
        rcases List.prefix_cons_iff.1 hys with rfl | ⟨zs, rfl, hzs⟩
        · exact Nat.zero_le _
        · exact h zs hzs
    rw [hfront]
    simp only [List.countP_cons]
    by_cases hopens : opens x = true
    · rw [depthAfter_cons_opens hopens, ih, hdisjoint x hopens, hopens]
      simp only [if_true, Bool.false_eq_true, if_false, Nat.add_zero, Nat.add_assoc,
        Nat.add_comm 1]
    rw [Bool.not_eq_true] at hopens
    by_cases hcloses : closes x = true
    · simp only [hopens, hcloses, if_true, Bool.false_eq_true, if_false, Nat.add_zero]
      cases d with
      | zero =>
        rw [depthAfter_zero_cons_closes hopens hcloses]
        refine iff_of_false (by simp) fun h => ?_
        have := h.1 [] (List.nil_prefix)
        simp at this
      | succ d =>
        rw [depthAfter_cons_closes hopens hcloses, ih]
        refine and_congr (forall₂_congr fun ys _ => ?_) ?_ <;> omega
    · rw [Bool.not_eq_true] at hcloses
      rw [depthAfter_cons_other hopens hcloses, ih]
      simp only [hopens, hcloses, Bool.false_eq_true, if_false, Nat.add_zero]

/-- **Nested lists end as they begin.** -/
theorem nested_iff_depthAfter (hdisjoint : ∀ x, opens x = true → closes x = false)
    {xs : List α} : Nested opens closes xs ↔ depthAfter opens closes 0 xs = some 0 := by
  rw [depthAfter_eq_some_iff hdisjoint]
  simp only [Nat.zero_add]
  exact ⟨fun h => ⟨h.opened, h.closed.symm⟩, fun h => ⟨h.1, h.2.symm⟩⟩

/-- A nested list changes no depth. -/
theorem Nested.depthAfter_eq (hdisjoint : ∀ x, opens x = true → closes x = false) {xs : List α}
    (h : Nested opens closes xs) (d : Nat) : depthAfter opens closes d xs = some d := by
  rw [depthAfter_eq_some_iff hdisjoint, h.closed]
  exact ⟨fun ys hys => Nat.le_trans (h.opened ys hys) (Nat.le_add_left ..), rfl⟩

end Nesting

namespace Text

/-! ### The passes for one kind -/

section OneKind

variable {kind : BracketKind}

theorem isCloser_eq_false_of_isOpener (m : Char × Bool) (h : isOpener kind m = true) :
    isCloser kind m = false := by
  rw [isOpener, Bool.and_eq_true] at h
  rw [isCloser, BracketKind.closes_eq_false_of_opens h.2, Bool.and_false]

theorem isOpener_eq_false_of_isCloser (m : Char × Bool) (h : isCloser kind m = true) :
    isOpener kind m = false := by
  cases hopens : isOpener kind m with
  | false => rfl
  | true => rw [isCloser_eq_false_of_isOpener m hopens] at h; cases h

/-- After the pass from the left, nothing is closed that is not open. -/
theorem isSome_depthAfter_dropClosers (d : Nat) (ms : List (Char × Bool)) :
    (depthAfter (isOpener kind) (isCloser kind) d (dropClosers kind d ms)).isSome = true := by
  fun_induction dropClosers kind d ms with
  | case1 => rfl
  | case2 d m ms hopens ih => rwa [depthAfter_cons_opens hopens]
  | case3 m ms _ _ ih => exact ih
  | case4 m ms hopens hcloses d ih =>
    rwa [depthAfter_cons_closes (Bool.not_eq_true _ ▸ hopens) hcloses]
  | case5 d m ms hopens hcloses ih =>
    rwa [depthAfter_cons_other (Bool.not_eq_true _ ▸ hopens) (Bool.not_eq_true _ ▸ hcloses)]

theorem dropOpeners_of_isCloser {m : Char × Bool} (h : isCloser kind m = true)
    (ms : List (Char × Bool)) : dropOpeners kind (m :: ms) =
      (m :: (dropOpeners kind ms).1, (dropOpeners kind ms).2 + 1) := by
  simp only [dropOpeners, h, if_true]

theorem dropOpeners_of_isOpener {m : Char × Bool} (h : isOpener kind m = true)
    (ms : List (Char × Bool)) : dropOpeners kind (m :: ms) =
      (if (dropOpeners kind ms).2 = 0 then (dropOpeners kind ms).1
        else m :: (dropOpeners kind ms).1, (dropOpeners kind ms).2 - 1) := by
  have hcloses := isCloser_eq_false_of_isOpener m h
  simp only [dropOpeners, h, hcloses, Bool.false_eq_true, if_true, if_false]
  cases (dropOpeners kind ms).2 <;> rfl

theorem dropOpeners_of_other {m : Char × Bool} (h : isOpener kind m = false)
    (h' : isCloser kind m = false) (ms : List (Char × Bool)) : dropOpeners kind (m :: ms) =
      (m :: (dropOpeners kind ms).1, (dropOpeners kind ms).2) := by
  simp only [dropOpeners, h, h', Bool.false_eq_true, if_false]

/-- The text that the pass from the right leaves closes the brackets that wait for an opening one,
and so did the text before. -/
theorem depthAfter_dropOpeners (d : Nat) (ms : List (Char × Bool)) :
    depthAfter (isOpener kind) (isCloser kind) d (dropOpeners kind ms).1 =
        (if (dropOpeners kind ms).2 ≤ d then some (d - (dropOpeners kind ms).2) else none) ∧
      ((depthAfter (isOpener kind) (isCloser kind) d ms).isSome = true ↔
        (dropOpeners kind ms).2 ≤ d) := by
  induction ms generalizing d with
  | nil => simp [dropOpeners, depthAfter]
  | cons m ms ih =>
    by_cases hcloses : isCloser kind m = true
    · have hopens := isOpener_eq_false_of_isCloser m hcloses
      rw [dropOpeners_of_isCloser hcloses]
      dsimp only
      cases d with
      | zero => simp [depthAfter_zero_cons_closes hopens hcloses]
      | succ d =>
        rw [depthAfter_cons_closes hopens hcloses, depthAfter_cons_closes hopens hcloses,
          (ih d).1, (ih d).2]
        simp
    rw [Bool.not_eq_true] at hcloses
    by_cases hopens : isOpener kind m = true
    · rw [dropOpeners_of_isOpener hopens, depthAfter_cons_opens hopens, (ih (d + 1)).2]
      dsimp only
      by_cases hwaiting : (dropOpeners kind ms).2 = 0
      · rw [if_pos hwaiting, (ih d).1]
        simp [hwaiting]
      · rw [if_neg hwaiting, depthAfter_cons_opens hopens, (ih (d + 1)).1]
        refine ⟨?_, by omega⟩
        split <;> rename_i hle
        · rw [if_pos (by omega)]
          congr 1
          omega
        · rw [if_neg (by omega)]
    · rw [Bool.not_eq_true] at hopens
      rw [dropOpeners_of_other hopens hcloses, depthAfter_cons_other hopens hcloses,
        depthAfter_cons_other hopens hcloses]
      exact ih d

/-- **The two passes leave the brackets of their kind nested.** -/
theorem nested_dropUnmatched (ms : List (Char × Bool)) :
    Nested (isOpener kind) (isCloser kind) (dropUnmatched kind ms) := by
  obtain ⟨hkept, hwaiting⟩ := depthAfter_dropOpeners 0 (dropClosers kind 0 ms)
  have hnone := hwaiting.1 (isSome_depthAfter_dropClosers 0 ms)
  rw [if_pos hnone, Nat.zero_sub] at hkept
  exact (nested_iff_depthAfter isCloser_eq_false_of_isOpener).2 hkept

end OneKind

/-! ### Another kind -/

/-- A bracket of one kind is none of another kind. -/
theorem BracketKind.disjoint {kind other : BracketKind} (hne : kind ≠ other) {c : Char}
    (h : kind.opens c = true ∨ kind.closes c = true) :
    other.opens c = false ∧ other.closes c = false := by
  cases kind with
  | round =>
    have hc : c = '(' ∨ c = ')' := by simpa only [opens, closes, beq_iff_eq] using h
    rcases hc with rfl | rfl <;> cases other <;> first | exact absurd rfl hne | decide
  | angle =>
    have hc : c = '<' ∨ c = '>' := by simpa only [opens, closes, beq_iff_eq] using h
    rcases hc with rfl | rfl <;> cases other <;> first | exact absurd rfl hne | decide
  | range =>
    have hc : (c = '[' ∨ c = '\x7b') ∨ c = ']' ∨ c = '\x7d' := by
      simpa only [opens, closes, Bool.or_eq_true, beq_iff_eq] using h
    rcases hc with (rfl | rfl) | rfl | rfl <;> cases other <;>
      first | exact absurd rfl hne | decide

section OtherKind

variable {kind other : BracketKind}

theorem isBracket_eq_false_of_ne (hne : kind ≠ other) {m : Char × Bool}
    (h : isOpener kind m = true ∨ isCloser kind m = true) :
    isOpener other m = false ∧ isCloser other m = false := by
  simp only [isOpener, isCloser, Bool.and_eq_true] at h ⊢
  obtain ⟨hopens, hcloses⟩ := BracketKind.disjoint hne (h.imp And.right And.right)
  simp [hopens, hcloses]

/-- A member that stays stands for the same change of the depth. -/
theorem depthAfter_cons_congr {α : Type} {opens closes : α → Bool} {xs ys : List α}
    (h : ∀ d, depthAfter opens closes d xs = depthAfter opens closes d ys) (x : α) (d : Nat) :
    depthAfter opens closes d (x :: xs) = depthAfter opens closes d (x :: ys) := by
  rw [← List.singleton_append, depthAfter_append, ← List.singleton_append (l := ys),
    depthAfter_append, funext h]

theorem depthAfter_dropClosers_other (hne : kind ≠ other) (n d : Nat) (ms : List (Char × Bool)) :
    depthAfter (isOpener other) (isCloser other) d (dropClosers kind n ms) =
      depthAfter (isOpener other) (isCloser other) d ms := by
  fun_induction dropClosers kind n ms generalizing d with
  | case1 => rfl
  | case3 m ms hopens hcloses ih =>
    obtain ⟨h, h'⟩ := isBracket_eq_false_of_ne hne (.inr hcloses)
    rw [depthAfter_cons_other h h', ih]
  | case2 n m ms _ ih => exact depthAfter_cons_congr ih m d
  | case4 m ms _ _ n ih => exact depthAfter_cons_congr ih m d
  | case5 n m ms _ _ ih => exact depthAfter_cons_congr ih m d

theorem depthAfter_dropOpeners_other (hne : kind ≠ other) (d : Nat) (ms : List (Char × Bool)) :
    depthAfter (isOpener other) (isCloser other) d (dropOpeners kind ms).1 =
      depthAfter (isOpener other) (isCloser other) d ms := by
  induction ms generalizing d with
  | nil => rfl
  | cons m ms ih =>
    by_cases hcloses : isCloser kind m = true
    · rw [dropOpeners_of_isCloser hcloses]
      exact depthAfter_cons_congr ih m d
    rw [Bool.not_eq_true] at hcloses
    by_cases hopens : isOpener kind m = true
    · rw [dropOpeners_of_isOpener hopens]
      dsimp only
      split
      · obtain ⟨h, h'⟩ := isBracket_eq_false_of_ne hne (.inl hopens)
        rw [depthAfter_cons_other h h', ih]
      · exact depthAfter_cons_congr ih m d
    · rw [Bool.not_eq_true] at hopens
      rw [dropOpeners_of_other hopens hcloses]
      exact depthAfter_cons_congr ih m d

/-- The passes for one kind change no depth of another kind. -/
theorem depthAfter_dropUnmatched_other (hne : kind ≠ other) (d : Nat)
    (ms : List (Char × Bool)) :
    depthAfter (isOpener other) (isCloser other) d (dropUnmatched kind ms) =
      depthAfter (isOpener other) (isCloser other) d ms := by
  rw [dropUnmatched, depthAfter_dropOpeners_other hne, depthAfter_dropClosers_other hne]

theorem nested_dropUnmatched_other (hne : kind ≠ other) {ms : List (Char × Bool)}
    (h : Nested (isOpener other) (isCloser other) ms) :
    Nested (isOpener other) (isCloser other) (dropUnmatched kind ms) := by
  rw [nested_iff_depthAfter isCloser_eq_false_of_isOpener] at h ⊢
  rwa [depthAfter_dropUnmatched_other hne]

end OtherKind

/-! ### What is left is exposed as it was -/

/-- The characters with the flags that tell which ones no backslash hides. -/
inductive Exposed : List (Char × Bool) → Prop where
  /-- The end. -/
  | nil : Exposed []
  /-- A backslash at the end, which hides nothing. -/
  | last : Exposed [('\\', false)]
  /-- A backslash and the character it hides. -/
  | escape {c : Char} {ms : List (Char × Bool)} (h : Exposed ms) :
      Exposed (('\\', false) :: (c, false) :: ms)
  /-- A character that is not hidden. -/
  | char {c : Char} {ms : List (Char × Bool)} (hc : c ≠ '\\') (h : Exposed ms) :
      Exposed ((c, true) :: ms)

theorem exposure_cons {c : Char} (hc : c ≠ '\\') (cs : List Char) :
    exposure (c :: cs) = (c, true) :: exposure cs :=
  exposure.eq_4 _ _ (fun h _ => hc h) (fun _ _ h _ => hc h)

/-- What is neither a backslash at the end nor one with a character after it is none. -/
theorem ne_backslash {c : Char} {cs : List Char} (hend : c = '\\' → cs = [] → False)
    (hescape : ∀ d ds, c = '\\' → cs = d :: ds → False) : c ≠ '\\' := by
  rintro rfl
  cases cs with
  | nil => exact hend rfl rfl
  | cons d ds => exact hescape d ds rfl rfl

theorem exposed_exposure (cs : List Char) : Exposed (exposure cs) := by
  fun_induction exposure cs with
  | case1 => exact .nil
  | case2 => exact .last
  | case3 c cs ih => exact ih.escape
  | case4 c cs hend hescape ih => exact ih.char (ne_backslash hend hescape)

/-- The flags can be told from the characters. -/
theorem Exposed.exposure_map_fst {ms : List (Char × Bool)} (h : Exposed ms) :
    exposure (ms.map Prod.fst) = ms := by
  induction h with
  | nil => rfl
  | last => rfl
  | escape _ ih => rw [List.map_cons, List.map_cons, exposure, ih]
  | char hc _ ih => rw [List.map_cons, exposure_cons hc, ih]

section Kept

variable {kind : BracketKind}

theorem isOpener_hidden (c : Char) : isOpener kind (c, false) = false := rfl

theorem isCloser_hidden (c : Char) : isCloser kind (c, false) = false := rfl

theorem Exposed.dropClosers {ms : List (Char × Bool)} (h : Exposed ms) (d : Nat) :
    Exposed (dropClosers kind d ms) := by
  induction h generalizing d with
  | nil => exact .nil
  | last => exact .last
  | escape _ ih => exact (ih d).escape
  | @char c ms hc _ ih =>
    rw [Text.dropClosers.eq_def]
    dsimp only
    split
    · exact (ih _).char hc
    split
    · cases d with
      | zero => exact ih 0
      | succ d => exact (ih d).char hc
    · exact (ih d).char hc

theorem Exposed.dropOpeners {ms : List (Char × Bool)} (h : Exposed ms) :
    Exposed (dropOpeners kind ms).1 := by
  induction h with
  | nil => exact .nil
  | last => exact .last
  | @escape c ms _ ih =>
    rw [dropOpeners_of_other (isOpener_hidden _) (isCloser_hidden _),
      dropOpeners_of_other (isOpener_hidden _) (isCloser_hidden _)]
    exact ih.escape
  | @char c ms hc _ ih =>
    by_cases hcloses : isCloser kind (c, true) = true
    · rw [dropOpeners_of_isCloser hcloses]
      exact ih.char hc
    rw [Bool.not_eq_true] at hcloses
    by_cases hopens : isOpener kind (c, true) = true
    · rw [dropOpeners_of_isOpener hopens]
      dsimp only
      split
      · exact ih
      · exact ih.char hc
    · rw [Bool.not_eq_true] at hopens
      rw [dropOpeners_of_other hopens hcloses]
      exact ih.char hc

theorem Exposed.dropUnmatched {ms : List (Char × Bool)} (h : Exposed ms) :
    Exposed (dropUnmatched kind ms) :=
  (h.dropClosers 0).dropOpeners

end Kept

theorem exposure_removeUnmatchedChars (cs : List Char) : exposure (removeUnmatchedChars cs) =
    dropUnmatched .range (dropUnmatched .angle (dropUnmatched .round (exposure cs))) :=
  (exposed_exposure cs).dropUnmatched.dropUnmatched.dropUnmatched.exposure_map_fst

/-- **Once the unmatched brackets are gone, the brackets of every kind are nested.** -/
theorem nested_exposure_removeUnmatchedChars (kind : BracketKind) (cs : List Char) :
    Nested (isOpener kind) (isCloser kind) (exposure (removeUnmatchedChars cs)) := by
  rw [exposure_removeUnmatchedChars]
  cases kind with
  | round =>
    exact nested_dropUnmatched_other (by decide)
      (nested_dropUnmatched_other (by decide) (nested_dropUnmatched _))
  | angle => exact nested_dropUnmatched_other (by decide) (nested_dropUnmatched _)
  | range => exact nested_dropUnmatched _

/-! ### Texts side by side -/

/-- Every backslash of the text has the character it hides. -/
inductive Paired : List Char → Prop where
  /-- The end. -/
  | nil : Paired []
  /-- A character that hides nothing. -/
  | char {c : Char} {cs : List Char} (hc : c ≠ '\\') (h : Paired cs) : Paired (c :: cs)
  /-- A backslash and the character it hides. -/
  | escape {c : Char} {cs : List Char} (h : Paired cs) : Paired ('\\' :: c :: cs)

theorem paired_of_forall {cs : List Char} (h : ∀ c ∈ cs, c ≠ '\\') : Paired cs := by
  induction cs with
  | nil => exact .nil
  | cons c cs ih =>
    rw [List.forall_mem_cons] at h
    exact .char h.1 (ih h.2)

/-- Such a text hides nothing of what follows it. -/
theorem exposure_append {cs : List Char} (h : Paired cs) (rest : List Char) :
    exposure (cs ++ rest) = exposure cs ++ exposure rest := by
  induction h with
  | nil => rfl
  | char hc _ ih =>
    rw [List.cons_append, exposure_cons hc, exposure_cons hc, ih, List.cons_append]
  | escape _ ih =>
    rw [List.cons_append, List.cons_append, exposure, exposure, ih, List.cons_append,
      List.cons_append]

end Text

end SearchQuery
