import SearchQuery.Text.Alphabetic
import SearchQuery.Text.Case
import SearchQuery.Token.Characters

/-!
# Lowercasing once is enough

Lowercasing a text a second time changes nothing, and it never makes a blank, a quote or an
operator out of a character that is none.

## The table is looked at once

Beyond ASCII the lowercase of a character comes from a table of runs. What the theory needs from it
is that the images of the runs stay clear of some other code points: of those that are lowercased
themselves, and of those with a meaning in queries. `LowercaseRun.misses` says so about one run and
an arithmetic progression, in terms of their ends only. So the table is checked entry by entry, and
no character is enumerated.

## Main definitions

* `LowercaseRun.misses` — the images of a run avoid an arithmetic progression
* `IsImage` — the code point of a lowercase letter
* `IsLowered` — a character that lowercasing keeps

## Main results

* `isLowered_of_mem_lowercaseAfter` — lowercasing yields only such characters
* `lowercase_lowercase` — lowercasing is idempotent
* `exists_lowercaseAfter_cons` — what may stand in a word still may in lowercase
-/

namespace SearchQuery.Text

/-- What holds of the characters of a list can be computed. Left to itself, `decide` would go
through all characters there are. -/
theorem forall_mem_of_all {P : Char → Prop} [DecidablePred P] {cs : List Char}
    (h : (cs.all fun c => P c) = true) : ∀ c ∈ cs, P c := by simpa using h

/-! ### Characters of ASCII -/

theorem forall_ascii {P : Char → Prop} (h : ∀ n < 128, P (Char.ofNat n)) {c : Char}
    (hc : isAscii c = true) : P c := by
  have hlt : c.toNat < 128 := by simpa [isAscii] using hc
  have hP := h c.toNat hlt
  rwa [Char.ofNat_toNat] at hP

theorem isAscii_of_toLower {c : Char} (h : isAscii c.toLower = true) : isAscii c = true := by
  by_cases hc : c.val ≥ 'A'.val ∧ c.val ≤ 'Z'.val
  · have hle : c.toNat ≤ 90 := hc.2
    rw [isAscii, decide_eq_true_eq]
    omega
  · have hself : c.toLower = c := dif_neg hc
    rwa [hself] at h

theorem isAscii_of_isAlphanum {c : Char} (h : c.isAlphanum = true) : isAscii c = true := by
  have hranges : ((decide (c.val ≥ 'A'.val ∧ c.val ≤ 'Z'.val) ||
      decide (c.val ≥ 'a'.val) && decide (c.val ≤ 'z'.val)) ||
      decide (c.val ≥ '0'.val) && decide (c.val ≤ '9'.val)) = true := h
  simp only [Bool.or_eq_true, Bool.and_eq_true, decide_eq_true_eq, UInt32.le_iff_toNat_le]
    at hranges
  have hdigit : ('9' : Char).val.toNat = 57 := rfl
  have hlower : ('z' : Char).val.toNat = 122 := rfl
  have hupper : ('Z' : Char).val.toNat = 90 := rfl
  rw [isAscii, decide_eq_true_eq, Char.toNat]
  omega

/-! ### Runs -/

/-- The images of the run are none of every `step`-th code point from `first` to `last`: they lie
before or after these, or between them. -/
def LowercaseRun.misses (run : LowercaseRun) (first last step : Nat) : Bool :=
  Nat.blt (run.image + (run.last - run.first)) first || Nat.blt last run.image ||
    ((run.step == 2 || run.first == run.last) && step == 2 && (run.image + first) % 2 == 1)

theorem LowercaseRun.not_of_misses {run : LowercaseRun} {first last step n m : Nat}
    (hmiss : run.misses first last step = true) (hm : run.lower? n = some m) :
    ¬(first ≤ m ∧ m ≤ last ∧ (m - first) % step = 0) := by
  simp only [lower?, Option.ite_none_right_eq_some, Bool.and_eq_true, decide_eq_true_eq,
    beq_iff_eq, Option.some.injEq] at hm
  obtain ⟨⟨⟨hfirst, hlast⟩, hstep⟩, rfl⟩ := hm
  rintro ⟨hlow, hhigh, hmod⟩
  simp only [misses, Bool.or_eq_true, Bool.and_eq_true, Nat.blt_eq, beq_iff_eq] at hmiss
  rcases hmiss with (hbefore | hafter) | ⟨⟨heven | hone, rfl⟩, hodd⟩
  · omega
  · omega
  · rw [heven] at hstep
    omega
  · omega

theorem misses_runs : (lowercaseRuns.all fun run => lowercaseRuns.all fun other =>
    run.misses other.first other.last other.step) = true := by decide +kernel

/-- The characters beyond letters and blanks that no lowercase letter may be. -/
def specialChars : List Char :=
  [':', '^', '\\', '~', '(', ')', '\x7b', '\x7d', '[', ']', '/', ',', '+', '-', 'Σ', '\u0130'] ++
    quoteGlyphs

theorem misses_specialChars : (lowercaseRuns.all fun run => specialChars.all fun c =>
    run.misses c.toNat c.toNat 1) = true := by decide

theorem misses_ranges : (lowercaseRuns.all fun run =>
    ((0x41, 0x5A) :: blankRanges).all fun range => run.misses range.1 range.2 1) = true := by
  decide

theorem valid_images : (lowercaseRuns.all fun run =>
    Nat.blt (run.image + (run.last - run.first)) 0xD800 ||
      Nat.blt 0xDFFF run.image && Nat.blt (run.image + (run.last - run.first)) 0x110000) =
      true := by
  decide

/-- The code point of a lowercase letter beyond ASCII. -/
def IsImage (m : Nat) : Prop := ∃ run ∈ lowercaseRuns, ∃ n, run.lower? n = some m

namespace IsImage

variable {m : Nat}

theorem isValidChar (h : IsImage m) : m.isValidChar := by
  obtain ⟨run, hrun, n, hm⟩ := h
  have hvalid := List.all_eq_true.1 valid_images run hrun
  simp only [Bool.or_eq_true, Bool.and_eq_true, Nat.blt_eq] at hvalid
  simp only [LowercaseRun.lower?, Option.ite_none_right_eq_some, Bool.and_eq_true,
    decide_eq_true_eq, beq_iff_eq, Option.some.injEq] at hm
  obtain ⟨⟨⟨hfirst, hlast⟩, -⟩, rfl⟩ := hm
  rw [Nat.isValidChar]
  omega

theorem toNat_ofNat (h : IsImage m) : (Char.ofNat m).toNat = m := by
  rw [Char.ofNat, dif_pos h.isValidChar]
  rfl

theorem not_of_mem_ranges (h : IsImage m) {range : Nat × Nat}
    (hr : range ∈ (0x41, 0x5A) :: blankRanges) : ¬(range.1 ≤ m ∧ m ≤ range.2) := by
  obtain ⟨run, hrun, n, hm⟩ := h
  have hmiss := List.all_eq_true.1 (List.all_eq_true.1 misses_ranges run hrun) range hr
  rintro ⟨hlow, hhigh⟩
  exact LowercaseRun.not_of_misses hmiss hm ⟨hlow, hhigh, Nat.mod_one _⟩

theorem lower?_eq_none (h : IsImage m) {other : LowercaseRun} (ho : other ∈ lowercaseRuns) :
    other.lower? m = none := by
  obtain ⟨run, hrun, n, hm⟩ := h
  have hmiss := List.all_eq_true.1 (List.all_eq_true.1 misses_runs run hrun) other ho
  have hnot := LowercaseRun.not_of_misses hmiss hm
  simpa [LowercaseRun.lower?, and_assoc] using hnot

theorem ne_special (h : IsImage m) {c : Char} (hc : c ∈ specialChars) : Char.ofNat m ≠ c := by
  rintro rfl
  obtain ⟨run, hrun, n, hm⟩ := id h
  have hmiss := List.all_eq_true.1 (List.all_eq_true.1 misses_specialChars run hrun) _ hc
  rw [h.toNat_ofNat] at hmiss
  exact LowercaseRun.not_of_misses hmiss hm ⟨Nat.le_refl _, Nat.le_refl _, Nat.mod_one _⟩

theorem isBlank_eq_false (h : IsImage m) : isBlank (Char.ofNat m) = false := by
  rw [Bool.eq_false_iff, isBlank, ne_eq, inRanges_eq_true_iff, h.toNat_ofNat]
  rintro ⟨range, hrange, hm⟩
  exact h.not_of_mem_ranges (List.mem_cons_of_mem _ hrange) hm

theorem isTermStart (h : IsImage m) : isTermStart (Char.ofNat m) = true := by
  have hspecial : ∀ c ∈ specialChars, Char.ofNat m ≠ c := fun c hc => h.ne_special hc
  simp only [specialChars, quoteGlyphs, List.cons_append, List.nil_append, List.forall_mem_cons,
    List.not_mem_nil, false_imp_iff, implies_true, and_true] at hspecial
  simp [SearchQuery.isTermStart, SearchQuery.isTermChar, h.isBlank_eq_false, isTermStop, isQuote,
    quoteGlyphs, hspecial]

theorem isTermChar (h : IsImage m) : isTermChar (Char.ofNat m) = true := by
  have hstart := h.isTermStart
  rw [SearchQuery.isTermStart, Bool.and_eq_true] at hstart
  exact hstart.1

end IsImage

/-! ### Single characters -/

/-- Lowercasing keeps the character. The capital sigma is singled out because it is lowercased by
its neighbours. -/
structure IsLowered (c : Char) : Prop where
  /-- Its lowercase is itself. -/
  lowerChar_eq : lowerChar c = [c]
  /-- It is not lowercased by its neighbours. -/
  ne_sigma : c ≠ 'Σ'

/-- Where the lowercase of a character comes from. -/
theorem lowerChar_cases (c : Char) :
    (isAscii c = true ∧ lowerChar c = [c.toLower]) ∨
      (c = '\u0130' ∧ lowerChar c = ['i', '\u0307']) ∨
      (∃ run ∈ lowercaseRuns, ∃ m, run.lower? c.toNat = some m ∧ lowerChar c = [Char.ofNat m]) ∨
      lowerChar c = [c] := by
  rw [lowerChar]
  split
  · rename_i hascii
    exact .inl ⟨hascii, rfl⟩
  split
  · rename_i hdot
    exact .inr (.inl ⟨hdot, rfl⟩)
  split
  · rename_i m hm
    obtain ⟨run, hrun, hm⟩ := List.exists_of_findSome?_eq_some hm
    exact .inr (.inr (.inl ⟨run, hrun, m, hm, rfl⟩))
  · exact .inr (.inr (.inr rfl))

theorem isLowered_toLower {c : Char} (hc : isAscii c = true) : IsLowered c.toLower := by
  have h : lowerChar c.toLower = [c.toLower] ∧ c.toLower ≠ 'Σ' :=
    forall_ascii (P := fun c => lowerChar c.toLower = [c.toLower] ∧ c.toLower ≠ 'Σ')
      (by decide) hc
  exact ⟨h.1, h.2⟩

theorem IsImage.isLowered {m : Nat} (h : IsImage m) : IsLowered (Char.ofNat m) := by
  refine ⟨?_, h.ne_special (by decide)⟩
  rcases lowerChar_cases (Char.ofNat m) with
    ⟨-, hlower⟩ | ⟨hdot, -⟩ | ⟨run, hrun, k, hk, -⟩ | hlower
  · -- a capital letter of ASCII is no image
    have hcapital := h.not_of_mem_ranges (List.mem_cons_self ..)
    have hself : (Char.ofNat m).toLower = Char.ofNat m := dif_neg fun ⟨hlow, hhigh⟩ => by
      refine hcapital ⟨?_, ?_⟩
      · rw [← h.toNat_ofNat]; exact hlow
      · rw [← h.toNat_ofNat]; exact hhigh
    rw [hlower, hself]
  · exact absurd hdot (h.ne_special (by decide))
  · rw [h.toNat_ofNat, h.lower?_eq_none hrun] at hk
    cases hk
  · exact hlower

theorem isLowered_of_mem_lowerChar {c d : Char} (hc : c ≠ 'Σ') (h : d ∈ lowerChar c) :
    IsLowered d := by
  rcases lowerChar_cases c with
    ⟨hascii, hlower⟩ | ⟨-, hlower⟩ | ⟨run, hrun, m, hm, hlower⟩ | hlower <;> rw [hlower] at h
  · rw [List.mem_singleton.1 h]
    exact isLowered_toLower hascii
  · rw [List.mem_cons, List.mem_singleton] at h
    rcases h with rfl | rfl
    · exact ⟨by decide, by decide⟩
    · exact ⟨by decide, by decide⟩
  · rw [List.mem_singleton.1 h]
    exact IsImage.isLowered ⟨run, hrun, _, hm⟩
  · rw [List.mem_singleton.1 h]
    exact ⟨hlower, hc⟩

/-- The lowercase of a character begins with one of the same standing in a word, and goes on with
characters that may stand in a word. -/
theorem exists_lowerChar_eq (c : Char) : ∃ d ds, lowerChar c = d :: ds ∧
    (isTermChar c = true → isTermChar d = true) ∧
    (isTermStart c = true → isTermStart d = true) ∧ ∀ e ∈ ds, isTermChar e = true := by
  rcases lowerChar_cases c with
    ⟨hascii, hlower⟩ | ⟨-, hlower⟩ | ⟨run, hrun, m, hm, hlower⟩ | hlower
  · have h : (isTermChar c = true → isTermChar c.toLower = true) ∧
        (isTermStart c = true → isTermStart c.toLower = true) :=
      forall_ascii (P := fun c => (isTermChar c = true → isTermChar c.toLower = true) ∧
        (isTermStart c = true → isTermStart c.toLower = true)) (by decide +kernel) hascii
    exact ⟨_, [], hlower, h.1, h.2, by simp⟩
  · exact ⟨'i', ['\u0307'], hlower, fun _ => by decide, fun _ => by decide,
      forall_mem_of_all (by decide)⟩
  · have himage : IsImage m := ⟨run, hrun, _, hm⟩
    exact ⟨_, [], hlower, fun _ => himage.isTermChar, fun _ => himage.isTermStart, by simp⟩
  · exact ⟨_, [], hlower, id, id, by simp⟩

theorem disjoint_decimalDigits : (lowercaseRuns.all fun run => decimalDigitRanges.all fun range =>
    Nat.blt run.last range.1 || Nat.blt range.2 run.first) = true := by decide +kernel

theorem isLowered_of_isDecimalDigit {c : Char} (h : isDecimalDigit c = true) : IsLowered c := by
  have hsigma : c ≠ 'Σ' := by
    rintro rfl
    exact absurd h (by decide)
  by_cases hascii : isAscii c = true
  · have hdigit : isDecimalDigit c = true → lowerChar c = [c] :=
      forall_ascii (P := fun c => isDecimalDigit c = true → lowerChar c = [c]) (by decide)
        hascii
    exact ⟨hdigit h, hsigma⟩
  rw [isDecimalDigit, if_neg hascii] at h
  obtain ⟨range, hrange, hc⟩ := inRanges_eq_true_iff.1 h
  rcases lowerChar_cases c with ⟨hascii', -⟩ | ⟨rfl, -⟩ | ⟨run, hrun, m, hm, -⟩ | hlower
  · exact absurd hascii' hascii
  · exact absurd h (by decide)
  · have hdisjoint := List.all_eq_true.1 (List.all_eq_true.1 disjoint_decimalDigits run hrun) range
      hrange
    simp only [Bool.or_eq_true, Nat.blt_eq] at hdisjoint
    simp only [LowercaseRun.lower?, Option.ite_none_right_eq_some, Bool.and_eq_true,
      decide_eq_true_eq] at hm
    omega
  · exact ⟨hlower, hsigma⟩

/-! ### Texts -/

theorem isLowered_of_mem_lowercaseAfter {before cs : List Char} {d : Char}
    (h : d ∈ lowercaseAfter before cs) : IsLowered d := by
  induction cs generalizing before with
  | nil => cases h
  | cons c cs ih =>
    rw [lowercaseAfter] at h
    rcases List.mem_append.1 h with himage | hrest
    · split at himage
      · rw [List.mem_singleton.1 himage]
        split
        · exact ⟨by decide, by decide⟩
        · exact ⟨by decide, by decide⟩
      · rename_i hc
        exact isLowered_of_mem_lowerChar hc himage
    · exact ih hrest

/-- What the lowercase of a text begins with. -/
theorem exists_lowercaseAfter_cons (before : List Char) (c : Char) (cs : List Char) : ∃ d ds,
    lowercaseAfter before (c :: cs) = d :: (ds ++ lowercaseAfter (c :: before) cs) ∧
      (isTermChar c = true → isTermChar d = true) ∧
      (isTermStart c = true → isTermStart d = true) ∧ ∀ e ∈ ds, isTermChar e = true := by
  rw [lowercaseAfter]
  split
  · refine ⟨_, [], rfl, fun _ => ?_, fun _ => ?_, by simp⟩
    · split <;> decide
    · split <;> decide
  · obtain ⟨d, ds, hlower, hchar, hstart, hds⟩ := exists_lowerChar_eq c
    exact ⟨d, ds, by rw [hlower, List.cons_append], hchar, hstart, hds⟩

/-- Without a capital sigma the neighbours do not matter. -/
theorem lowercaseAfter_eq_flatMap {cs : List Char} (h : 'Σ' ∉ cs) (before : List Char) :
    lowercaseAfter before cs = cs.flatMap lowerChar := by
  induction cs generalizing before with
  | nil => rfl
  | cons c cs ih =>
    rw [List.mem_cons, not_or] at h
    rw [lowercaseAfter, if_neg (Ne.symm h.1), ih h.2, List.flatMap_cons]

theorem flatMap_lowerChar_eq_self {cs : List Char} (h : ∀ c ∈ cs, IsLowered c) :
    cs.flatMap lowerChar = cs := by
  induction cs with
  | nil => rfl
  | cons c cs ih =>
    rw [List.forall_mem_cons] at h
    rw [List.flatMap_cons, h.1.lowerChar_eq, ih h.2, List.singleton_append]

theorem lowercase_eq_self {cs : List Char} (h : ∀ c ∈ cs, IsLowered c) : lowercase cs = cs := by
  have hsigma : 'Σ' ∉ cs := fun hmem => (h _ hmem).ne_sigma rfl
  rw [lowercase, lowercaseAfter_eq_flatMap hsigma, flatMap_lowerChar_eq_self h]

/-- **Lowercasing a second time changes nothing.** -/
theorem lowercase_lowercase (cs : List Char) : lowercase (lowercase cs) = lowercase cs :=
  lowercase_eq_self fun _ hc => isLowered_of_mem_lowercaseAfter hc

theorem lower_lower (s : String) : lower (lower s) = lower s := by
  simp only [lower, String.toList_ofList, lowercase_lowercase]

end SearchQuery.Text
