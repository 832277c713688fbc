import SearchQuery.Proofs.Text.Brackets

/-!
# No more brackets are dropped than necessary

Whoever takes brackets out of a text until every kind is nested takes out at least as many of each
kind as the two passes do.

## Closing brackets decide

In a balanced text a kind has as many opening as closing brackets. So it is enough to compare the
closing brackets that are left, and those are settled by the pass from the left alone. That pass
keeps every opening bracket, and with one more bracket open it keeps one more closing bracket at
most. So a deletion that takes out a bracket early gains nothing by it later.

## Kinds on their own

What counts for a kind are the brackets of that kind in their order. The passes for the other kinds
leave them alone, so it makes no difference that one kind is treated after another.

## Main definitions

* `Balanced` — the exposed brackets of a kind are nested
* `Deletion` — a text, some of its exposed brackets, and the text without them

## Main results

* `Deletion.countP_closers_le` — the pass from the left keeps the most closing brackets
* `removeUnmatchedChars_eq_self_iff` — the balanced texts stay as they are, and no others
* `removeUnmatched_drops_fewest` — only exposed brackets are dropped, and the fewest of each kind
-/

namespace SearchQuery.Text

variable {kind : BracketKind} {cs gone left : List Char}

/-- Whether `c` is a bracket of this kind. -/
def BracketKind.isBracket (kind : BracketKind) (c : Char) : Bool := kind.opens c || kind.closes c

/-- The text is balanced for this kind: its exposed brackets are nested. -/
def Balanced (kind : BracketKind) (cs : List Char) : Prop :=
  Nested (isOpener kind) (isCloser kind) (exposure cs)

/-- The text `cs`, some brackets `gone` that no backslash hides in it, and the text `left` without
them. -/
inductive Deletion : List Char → List Char → List Char → Prop where
  /-- The end. -/
  | nil : Deletion [] [] []
  /-- A backslash at the end stays. -/
  | last : Deletion ['\\'] [] ['\\']
  /-- A backslash stays, and so does the character it hides. -/
  | escape {c : Char} {cs gone left : List Char} (h : Deletion cs gone left) :
      Deletion ('\\' :: c :: cs) gone ('\\' :: c :: left)
  /-- A character stays. -/
  | keep {c : Char} {cs gone left : List Char} (hc : c ≠ '\\') (h : Deletion cs gone left) :
      Deletion (c :: cs) gone (c :: left)
  /-- A bracket is taken out. -/
  | drop {c : Char} {cs gone left : List Char} (hc : ∃ kind : BracketKind, kind.isBracket c = true)
      (h : Deletion cs gone left) : Deletion (c :: cs) (c :: gone) left

/-! ### Deletions one after the other -/

theorem ne_backslash_of_isBracket {c : Char}
    (h : ∃ kind : BracketKind, kind.isBracket c = true) : c ≠ '\\' := by
  obtain ⟨kind, h⟩ := h
  rintro rfl
  cases kind <;> exact absurd h (by decide)

theorem Deletion.refl (cs : List Char) : Deletion cs [] cs := by
  fun_induction exposure cs with
  | case1 => exact .nil
  | case2 => exact .last
  | case3 c cs ih => exact ih.escape
  | case4 c cs hend hescape ih => exact ih.keep (ne_backslash hend hescape)

theorem Deletion.eq_of_nil (h : Deletion cs [] left) : left = cs := by
  generalize hgone : ([] : List Char) = gone at h
  induction h with
  | nil => rfl
  | last => rfl
  | escape _ ih => rw [ih hgone]
  | keep _ _ ih => rw [ih hgone]
  | drop => cases hgone

theorem Deletion.trans {mid gone' : List Char} (h : Deletion cs gone mid)
    (h' : Deletion mid gone' left) :
    ∃ all, Deletion cs all left ∧ all.Perm (gone ++ gone') := by
  induction h generalizing gone' left with
  | nil => exact ⟨gone', h', .refl _⟩
  | last => exact ⟨gone', h', .refl _⟩
  | escape _ ih =>
    cases h' with
    | escape h' =>
      obtain ⟨all, hall, hperm⟩ := ih h'
      exact ⟨all, hall.escape, hperm⟩
    | keep hc => exact absurd rfl hc
    | drop hc => exact absurd rfl (ne_backslash_of_isBracket hc)
  | keep hne _ ih =>
    cases h' with
    | last => exact absurd rfl hne
    | escape => exact absurd rfl hne
    | keep _ h' =>
      obtain ⟨all, hall, hperm⟩ := ih h'
      exact ⟨all, hall.keep hne, hperm⟩
    | drop hc h' =>
      obtain ⟨all, hall, hperm⟩ := ih h'
      exact ⟨_, hall.drop hc, (hperm.cons _).trans List.perm_middle.symm⟩
  | drop hc _ ih =>
    obtain ⟨all, hall, hperm⟩ := ih h'
    exact ⟨_, hall.drop hc, hperm.cons _⟩

/-- What is exposed in the text and not left is gone. -/
theorem Deletion.countP_exposure (p : Char → Bool) (h : Deletion cs gone left) :
    (exposure cs).countP (fun m => m.2 && p m.1) =
      gone.countP p + (exposure left).countP fun m => m.2 && p m.1 := by
  induction h with
  | nil => rfl
  | last => rfl
  | escape _ ih => simpa [exposure] using ih
  | keep hc _ ih =>
    rw [exposure_cons hc, exposure_cons hc, List.countP_cons, List.countP_cons, ih]
    omega
  | drop hc _ ih =>
    rw [exposure_cons (ne_backslash_of_isBracket hc), List.countP_cons, List.countP_cons, ih]
    simp only [Bool.true_and]
    omega

/-! ### The most closing brackets -/

/-- How many closing brackets the pass from the left keeps. -/
def keptClosers (kind : BracketKind) (d : Nat) (ms : List (Char × Bool)) : Nat :=
  (dropClosers kind d ms).countP (isCloser kind)

section Kept

variable {m : Char × Bool} (d : Nat) (ms : List (Char × Bool))

theorem keptClosers_of_isOpener (h : isOpener kind m = true) :
    keptClosers kind d (m :: ms) = keptClosers kind (d + 1) ms := by
  have hcloses : isCloser kind m = false := isCloser_eq_false_of_isOpener m h
  simp [keptClosers, dropClosers, h, hcloses]

theorem keptClosers_zero_of_isCloser (h : isCloser kind m = true) :
    keptClosers kind 0 (m :: ms) = keptClosers kind 0 ms := by
  have hopens : isOpener kind m = false := isOpener_eq_false_of_isCloser m h
  simp [keptClosers, dropClosers, h, hopens]

theorem keptClosers_succ_of_isCloser (h : isCloser kind m = true) :
    keptClosers kind (d + 1) (m :: ms) = keptClosers kind d ms + 1 := by
  have hopens : isOpener kind m = false := isOpener_eq_false_of_isCloser m h
  simp [keptClosers, dropClosers, h, hopens]

theorem keptClosers_of_other (h : isOpener kind m = false) (h' : isCloser kind m = false) :
    keptClosers kind d (m :: ms) = keptClosers kind d ms := by
  simp [keptClosers, dropClosers, h, h']

end Kept

/-- One bracket more or less that is open makes a difference of one at most. -/
theorem keptClosers_succ (d : Nat) (ms : List (Char × Bool)) :
    keptClosers kind d ms ≤ keptClosers kind (d + 1) ms ∧
      keptClosers kind (d + 1) ms ≤ keptClosers kind d ms + 1 := by
  induction ms generalizing d with
  | nil => exact ⟨Nat.le_refl _, Nat.le_succ _⟩
  | cons m ms ih =>
    by_cases hopens : isOpener kind m = true
    · rw [keptClosers_of_isOpener _ _ hopens, keptClosers_of_isOpener _ _ hopens]
      exact ih (d + 1)
    by_cases hcloses : isCloser kind m = true
    · rw [keptClosers_succ_of_isCloser _ _ hcloses]
      cases d with
      | zero =>
        rw [keptClosers_zero_of_isCloser _ hcloses]
        omega
      | succ d =>
        rw [keptClosers_succ_of_isCloser _ _ hcloses]
        have := ih d
        omega
    · rw [Bool.not_eq_true] at hopens hcloses
      rw [keptClosers_of_other _ _ hopens hcloses, keptClosers_of_other _ _ hopens hcloses]
      exact ih d

/-- **The pass from the left keeps the most closing brackets** of all deletions that close no
bracket that is not open. -/
theorem Deletion.countP_closers_le (h : Deletion cs gone left) {d : Nat}
    (hleft : (depthAfter (isOpener kind) (isCloser kind) d (exposure left)).isSome = true) :
    (exposure left).countP (isCloser kind) ≤ keptClosers kind d (exposure cs) := by
  induction h generalizing d with
  | nil => exact Nat.zero_le _
  | last => exact Nat.zero_le _
  | escape _ ih =>
    rw [exposure, depthAfter_cons_other rfl rfl, depthAfter_cons_other rfl rfl] at hleft
    rw [exposure, exposure, keptClosers_of_other _ _ rfl rfl, keptClosers_of_other _ _ rfl rfl,
      List.countP_cons_of_neg (by simp [isCloser]), List.countP_cons_of_neg (by simp [isCloser])]
    exact ih hleft
  | @keep c cs gone left hc _ ih =>
    rw [exposure_cons hc] at hleft
    rw [exposure_cons hc, exposure_cons hc]
    by_cases hopens : isOpener kind (c, true) = true
    · have hcloses : isCloser kind (c, true) = false := isCloser_eq_false_of_isOpener _ hopens
      rw [depthAfter_cons_opens hopens] at hleft
      rw [keptClosers_of_isOpener _ _ hopens, List.countP_cons_of_neg (by simp [hcloses])]
      exact ih hleft
    rw [Bool.not_eq_true] at hopens
    by_cases hcloses : isCloser kind (c, true) = true
    · cases d with
      | zero =>
        rw [depthAfter_zero_cons_closes hopens hcloses] at hleft
        cases hleft
      | succ d =>
        rw [depthAfter_cons_closes hopens hcloses] at hleft
        rw [keptClosers_succ_of_isCloser _ _ hcloses, List.countP_cons_of_pos hcloses]
        exact Nat.succ_le_succ (ih hleft)
    · rw [Bool.not_eq_true] at hcloses
      rw [depthAfter_cons_other hopens hcloses] at hleft
      rw [keptClosers_of_other _ _ hopens hcloses, List.countP_cons_of_neg (by simp [hcloses])]
      exact ih hleft
  | @drop c cs gone left hc _ ih =>
    -- the other deletion goes on with the depth it had
    rw [exposure_cons (ne_backslash_of_isBracket hc)]
    have hle : (exposure left).countP (isCloser kind) ≤ keptClosers kind d (exposure cs) := ih hleft
    by_cases hopens : isOpener kind (c, true) = true
    · rw [keptClosers_of_isOpener _ _ hopens]
      exact Nat.le_trans hle (keptClosers_succ d _).1
    by_cases hcloses : isCloser kind (c, true) = true
    · cases d with
      | zero => rwa [keptClosers_zero_of_isCloser _ hcloses]
      | succ d =>
        rw [keptClosers_succ_of_isCloser _ _ hcloses]
        exact Nat.le_trans hle (keptClosers_succ d _).2
    · rw [Bool.not_eq_true] at hopens hcloses
      rwa [keptClosers_of_other _ _ hopens hcloses]

/-! ### What the passes drop -/

theorem BracketKind.isBracket_of_opens {c : Char} (h : kind.opens c = true) :
    kind.isBracket c = true := by
  rw [isBracket, h, Bool.true_or]

theorem BracketKind.isBracket_of_closes {c : Char} (h : kind.closes c = true) :
    kind.isBracket c = true := by
  rw [isBracket, h, Bool.or_true]

theorem Exposed.exists_deletion_dropClosers {ms : List (Char × Bool)} (h : Exposed ms)
    (kind : BracketKind) (d : Nat) :
    ∃ gone, Deletion (ms.map Prod.fst) gone ((Text.dropClosers kind d ms).map Prod.fst) ∧
      ∀ c ∈ gone, kind.isBracket c = true := by
  induction h generalizing d with
  | nil => exact ⟨[], .nil, List.forall_mem_nil _⟩
  | last => exact ⟨[], .last, List.forall_mem_nil _⟩
  | escape _ ih =>
    obtain ⟨gone, hgone, hkind⟩ := ih d
    exact ⟨gone, hgone.escape, hkind⟩
  | @char c ms hc _ ih =>
    rw [Text.dropClosers.eq_def]
    dsimp only
    split
    · obtain ⟨gone, hgone, hkind⟩ := ih (d + 1)
      exact ⟨gone, hgone.keep hc, hkind⟩
    split
    · rename_i hcloses
      have hbracket : kind.isBracket c = true := BracketKind.isBracket_of_closes hcloses
      cases d with
      | zero =>
        obtain ⟨gone, hgone, hkind⟩ := ih 0
        exact ⟨c :: gone, hgone.drop ⟨kind, hbracket⟩, List.forall_mem_cons.2 ⟨hbracket, hkind⟩⟩
      | succ d =>
        obtain ⟨gone, hgone, hkind⟩ := ih d
        exact ⟨gone, hgone.keep hc, hkind⟩
    · obtain ⟨gone, hgone, hkind⟩ := ih d
      exact ⟨gone, hgone.keep hc, hkind⟩

theorem Exposed.exists_deletion_dropOpeners {ms : List (Char × Bool)} (h : Exposed ms)
    (kind : BracketKind) :
    ∃ gone, Deletion (ms.map Prod.fst) gone ((Text.dropOpeners kind ms).1.map Prod.fst) ∧
      ∀ c ∈ gone, kind.isBracket c = true := by
  induction h with
  | nil => exact ⟨[], .nil, List.forall_mem_nil _⟩
  | last => exact ⟨[], .last, List.forall_mem_nil _⟩
  | escape _ ih =>
    obtain ⟨gone, hgone, hkind⟩ := ih
    rw [dropOpeners_of_other (isOpener_hidden _) (isCloser_hidden _),
      dropOpeners_of_other (isOpener_hidden _) (isCloser_hidden _)]
    exact ⟨gone, hgone.escape, hkind⟩
  | @char c ms hc _ ih =>
    obtain ⟨gone, hgone, hkind⟩ := ih
    by_cases hcloses : isCloser kind (c, true) = true
    · rw [dropOpeners_of_isCloser hcloses]
      exact ⟨gone, hgone.keep hc, hkind⟩
    rw [Bool.not_eq_true] at hcloses
    by_cases hopens : isOpener kind (c, true) = true
    · rw [dropOpeners_of_isOpener hopens]
      dsimp only
      split
      · have hbracket : kind.isBracket c = true := BracketKind.isBracket_of_opens hopens
        exact ⟨c :: gone, hgone.drop ⟨kind, hbracket⟩, List.forall_mem_cons.2 ⟨hbracket, hkind⟩⟩
      · exact ⟨gone, hgone.keep hc, hkind⟩
    · rw [Bool.not_eq_true] at hopens
      rw [dropOpeners_of_other hopens hcloses]
      exact ⟨gone, hgone.keep hc, hkind⟩

theorem Exposed.exists_deletion_dropUnmatched {ms : List (Char × Bool)} (h : Exposed ms)
    (kind : BracketKind) :
    ∃ gone, Deletion (ms.map Prod.fst) gone ((Text.dropUnmatched kind ms).map Prod.fst) ∧
      ∀ c ∈ gone, kind.isBracket c = true := by
  obtain ⟨closers, hclosers, hkind⟩ := h.exists_deletion_dropClosers kind 0
  obtain ⟨openers, hopeners, hkind'⟩ := (h.dropClosers 0).exists_deletion_dropOpeners kind
  obtain ⟨gone, hgone, hperm⟩ := hclosers.trans hopeners
  refine ⟨gone, hgone, fun c hc => ?_⟩
  rcases List.mem_append.1 (hperm.mem_iff.1 hc) with hc | hc
  · exact hkind c hc
  · exact hkind' c hc

/-- Brackets are taken out of the text and nothing else. -/
theorem exists_deletion_removeUnmatchedChars (cs : List Char) :
    ∃ gone, Deletion cs gone (removeUnmatchedChars cs) := by
  have hround : Exposed (dropUnmatched .round (exposure cs)) := (exposed_exposure cs).dropUnmatched
  obtain ⟨gone, hgone, -⟩ := (exposed_exposure cs).exists_deletion_dropUnmatched .round
  obtain ⟨gone', hgone', -⟩ := hround.exists_deletion_dropUnmatched .angle
  obtain ⟨gone'', hgone'', -⟩ := hround.dropUnmatched.exists_deletion_dropUnmatched .range
  rw [map_fst_exposure] at hgone
  obtain ⟨both, hboth, -⟩ := hgone.trans hgone'
  obtain ⟨all, hall, -⟩ := hboth.trans hgone''
  exact ⟨all, hall⟩

/-! ### Kinds on their own -/

theorem keptClosers_cons_congr {ms ns : List (Char × Bool)}
    (h : ∀ d, keptClosers kind d ms = keptClosers kind d ns) (m : Char × Bool) (d : Nat) :
    keptClosers kind d (m :: ms) = keptClosers kind d (m :: ns) := by
  by_cases hopens : isOpener kind m = true
  · rw [keptClosers_of_isOpener _ _ hopens, keptClosers_of_isOpener _ _ hopens, h]
  by_cases hcloses : isCloser kind m = true
  · cases d with
    | zero => rw [keptClosers_zero_of_isCloser _ hcloses, keptClosers_zero_of_isCloser _ hcloses, h]
    | succ d =>
      rw [keptClosers_succ_of_isCloser _ _ hcloses, keptClosers_succ_of_isCloser _ _ hcloses, h]
  · rw [Bool.not_eq_true] at hopens hcloses
    rw [keptClosers_of_other _ _ hopens hcloses, keptClosers_of_other _ _ hopens hcloses, h]

/-- Brackets of other kinds make no difference. -/
theorem Deletion.keptClosers_eq (h : Deletion cs gone left)
    (hgone : ∀ c ∈ gone, kind.isBracket c = false) (d : Nat) :
    keptClosers kind d (exposure left) = keptClosers kind d (exposure cs) := by
  induction h generalizing d with
  | nil => rfl
  | last => rfl
  | escape _ ih =>
    exact keptClosers_cons_congr (fun d => keptClosers_cons_congr (ih hgone) _ d) _ d
  | keep hc _ ih =>
    rw [exposure_cons hc, exposure_cons hc]
    exact keptClosers_cons_congr (ih hgone) _ d
  | @drop c cs gone left hc _ ih =>
    rw [List.forall_mem_cons, BracketKind.isBracket, Bool.or_eq_false_iff] at hgone
    have hopens : isOpener kind (c, true) = false := hgone.1.1
    have hcloses : isCloser kind (c, true) = false := hgone.1.2
    rw [exposure_cons (ne_backslash_of_isBracket hc), keptClosers_of_other _ _ hopens hcloses]
    exact ih hgone.2 d

theorem countP_closers_dropUnmatched (ms : List (Char × Bool)) :
    (dropUnmatched kind ms).countP (isCloser kind) = keptClosers kind 0 ms := by
  rw [dropUnmatched, keptClosers]
  induction dropClosers kind 0 ms with
  | nil => rfl
  | cons m ms ih =>
    by_cases hcloses : isCloser kind m = true
    · rw [dropOpeners_of_isCloser hcloses, List.countP_cons_of_pos hcloses,
        List.countP_cons_of_pos hcloses, ih]
    rw [List.countP_cons_of_neg hcloses]
    rw [Bool.not_eq_true] at hcloses
    by_cases hopens : isOpener kind m = true
    · rw [dropOpeners_of_isOpener hopens]
      dsimp only
      split
      · exact ih
      · rw [List.countP_cons_of_neg (by simp [hcloses]), ih]
    · rw [Bool.not_eq_true] at hopens
      rw [dropOpeners_of_other hopens hcloses, List.countP_cons_of_neg (by simp [hcloses]), ih]

/-- The passes for another kind are a deletion without brackets of this kind. -/
theorem Exposed.exists_deletion_of_ne {ms : List (Char × Bool)} (h : Exposed ms)
    {other : BracketKind} (hne : other ≠ kind) :
    ∃ gone, Deletion (ms.map Prod.fst) gone ((Text.dropUnmatched other ms).map Prod.fst) ∧
      ∀ c ∈ gone, kind.isBracket c = false := by
  obtain ⟨gone, hgone, hother⟩ := h.exists_deletion_dropUnmatched other
  refine ⟨gone, hgone, fun c hc => ?_⟩
  have hbracket := hother c hc
  rw [BracketKind.isBracket, Bool.or_eq_true] at hbracket
  obtain ⟨hopens, hcloses⟩ := BracketKind.disjoint hne hbracket
  rw [BracketKind.isBracket, hopens, hcloses, Bool.or_false]

theorem Exposed.keptClosers_dropUnmatched {ms : List (Char × Bool)} (h : Exposed ms)
    {other : BracketKind} (hne : other ≠ kind) :
    keptClosers kind 0 (Text.dropUnmatched other ms) = keptClosers kind 0 ms := by
  obtain ⟨gone, hgone, hkind⟩ := h.exists_deletion_of_ne hne
  have hsame := hgone.keptClosers_eq hkind 0
  rwa [h.exposure_map_fst, h.dropUnmatched.exposure_map_fst] at hsame

theorem Exposed.countP_closers_dropUnmatched {ms : List (Char × Bool)} (h : Exposed ms)
    {other : BracketKind} (hne : other ≠ kind) :
    (Text.dropUnmatched other ms).countP (isCloser kind) = ms.countP (isCloser kind) := by
  obtain ⟨gone, hgone, hkind⟩ := h.exists_deletion_of_ne hne
  have hcount := hgone.countP_exposure kind.closes
  have hnone : gone.countP kind.closes = 0 := by
    rw [List.countP_eq_zero]
    intro c hc hcloses
    have := hkind c hc
    rw [BracketKind.isBracket_of_closes hcloses] at this
    cases this
  rw [h.exposure_map_fst, h.dropUnmatched.exposure_map_fst, hnone, Nat.zero_add] at hcount
  exact hcount.symm

/-- The text without unmatched brackets has as many closing brackets of each kind as the pass from
the left for that kind keeps in the whole text. -/
theorem countP_closers_removeUnmatchedChars (kind : BracketKind) (cs : List Char) :
    (exposure (removeUnmatchedChars cs)).countP (isCloser kind) =
      keptClosers kind 0 (exposure cs) := by
  have hcs : Exposed (exposure cs) := exposed_exposure cs
  have hround : Exposed (dropUnmatched .round (exposure cs)) := hcs.dropUnmatched
  have hangle : Exposed (dropUnmatched .angle (dropUnmatched .round (exposure cs))) :=
    hround.dropUnmatched
  rw [exposure_removeUnmatchedChars]
  cases kind with
  | round =>
    rw [hangle.countP_closers_dropUnmatched (by decide),
      hround.countP_closers_dropUnmatched (by decide), countP_closers_dropUnmatched]
  | angle =>
    rw [hangle.countP_closers_dropUnmatched (by decide), countP_closers_dropUnmatched,
      hcs.keptClosers_dropUnmatched (by decide)]
  | range =>
    rw [countP_closers_dropUnmatched, hround.keptClosers_dropUnmatched (by decide),
      hcs.keptClosers_dropUnmatched (by decide)]

/-! ### The fewest brackets -/

theorem BracketKind.countP_isBracket (kind : BracketKind) (cs : List Char) :
    cs.countP kind.isBracket = cs.countP kind.opens + cs.countP kind.closes := by
  induction cs with
  | nil => rfl
  | cons c cs ih =>
    rw [List.countP_cons, List.countP_cons, List.countP_cons, ih, isBracket]
    cases hopens : kind.opens c with
    | true =>
      rw [closes_eq_false_of_opens hopens]
      simp
      omega
    | false => simp; omega

/-- In a balanced text half of the brackets that are left close. -/
theorem Deletion.countP_gone (h : Deletion cs gone left) (hleft : Balanced kind left) :
    gone.countP kind.isBracket + 2 * (exposure left).countP (isCloser kind) =
      (exposure cs).countP (isOpener kind) + (exposure cs).countP (isCloser kind) := by
  have hopens : (exposure cs).countP (isOpener kind) =
      gone.countP kind.opens + (exposure left).countP (isOpener kind) :=
    h.countP_exposure kind.opens
  have hcloses : (exposure cs).countP (isCloser kind) =
      gone.countP kind.closes + (exposure left).countP (isCloser kind) :=
    h.countP_exposure kind.closes
  have hhalf : (exposure left).countP (isCloser kind) = (exposure left).countP (isOpener kind) :=
    hleft.closed
  have hboth : gone.countP kind.isBracket = gone.countP kind.opens + gone.countP kind.closes :=
    kind.countP_isBracket gone
  omega

/-- Any deletion that balances a kind takes out at least as many brackets of it. -/
theorem Deletion.countP_le_of_balanced (h : Deletion cs gone (removeUnmatchedChars cs))
    {gone' : List Char} (h' : Deletion cs gone' left) (hleft : Balanced kind left) :
    gone.countP kind.isBracket ≤ gone'.countP kind.isBracket := by
  have hours := h.countP_gone (nested_exposure_removeUnmatchedChars kind cs)
  have htheirs := h'.countP_gone hleft
  have hopen : (depthAfter (isOpener kind) (isCloser kind) 0 (exposure left)).isSome = true := by
    rw [(nested_iff_depthAfter isCloser_eq_false_of_isOpener).1 hleft]
    rfl
  have hmost : (exposure left).countP (isCloser kind) ≤ keptClosers kind 0 (exposure cs) :=
    h'.countP_closers_le hopen
  rw [← countP_closers_removeUnmatchedChars] at hmost
  omega

theorem Deletion.mem_gone (h : Deletion cs gone left) {c : Char} (hc : c ∈ gone) :
    ∃ kind : BracketKind, kind.isBracket c = true := by
  induction h with
  | nil => cases hc
  | last => cases hc
  | escape _ ih => exact ih hc
  | keep _ _ ih => exact ih hc
  | drop hbracket _ ih =>
    rcases List.mem_cons.1 hc with rfl | hc
    · exact hbracket
    · exact ih hc

/-- **A text stays as it is if and only if every kind of brackets is balanced in it.** -/
theorem removeUnmatchedChars_eq_self_iff :
    removeUnmatchedChars cs = cs ↔ ∀ kind, Balanced kind cs := by
  constructor
  · intro h kind
    rw [← h]
    exact nested_exposure_removeUnmatchedChars kind cs
  · intro h
    obtain ⟨gone, hgone⟩ := exists_deletion_removeUnmatchedChars cs
    -- nothing has to be taken out, so nothing is
    have hnone : gone = [] := by
      rw [List.eq_nil_iff_forall_not_mem]
      intro c hc
      obtain ⟨kind, hkind⟩ := hgone.mem_gone hc
      have hle := hgone.countP_le_of_balanced (.refl cs) (h kind)
      have hpos := List.countP_pos_iff.2 ⟨c, hc, hkind⟩
      rw [List.countP_nil] at hle
      omega
    rw [hnone] at hgone
    exact hgone.eq_of_nil

/-- **Unmatched brackets are dropped and nothing else.** What is dropped are brackets that no
backslash hides, no kind is left unbalanced, and no other deletion that balances a kind takes out
fewer brackets of it. So exactly the balanced texts stay as they are, and what is left of any text
does. -/
theorem removeUnmatched_drops_fewest (s : String) :
    (∃ gone, Deletion s.toList gone (removeUnmatched s).toList ∧
      ∀ gone' left, Deletion s.toList gone' left → ∀ kind, Balanced kind left →
        gone.countP kind.isBracket ≤ gone'.countP kind.isBracket) ∧
    (∀ kind, Balanced kind (removeUnmatched s).toList) ∧
    (removeUnmatched s = s ↔ ∀ kind, Balanced kind s.toList) ∧
    removeUnmatched (removeUnmatched s) = removeUnmatched s := by
  have hbalanced (kind : BracketKind) : Balanced kind (removeUnmatchedChars s.toList) :=
    nested_exposure_removeUnmatchedChars kind s.toList
  have hself (s : String) : removeUnmatched s = s ↔ ∀ kind, Balanced kind s.toList := by
    rw [← removeUnmatchedChars_eq_self_iff, removeUnmatched, ← String.toList_inj,
      String.toList_ofList]
  obtain ⟨gone, hgone⟩ := exists_deletion_removeUnmatchedChars s.toList
  refine ⟨⟨gone, ?_, ?_⟩, ?_, hself s, ?_⟩
  · rwa [removeUnmatched, String.toList_ofList]
  · intro gone' left h' kind hleft
    exact hgone.countP_le_of_balanced h' hleft
  · intro kind
    rw [removeUnmatched, String.toList_ofList]
    exact hbalanced kind
  · rw [hself, removeUnmatched, String.toList_ofList]
    exact hbalanced

example : removeUnmatched "(a ]b\\) <(c>))" = "(a b\\) <(c>))" := by decide

end SearchQuery.Text
