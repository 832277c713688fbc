import Mathlib.Data.List.Basic
import SearchQuery.Text.Quoted

/-!
# A text is known by its quotation

Different texts have different quotations, and a quotation is on one line. What a quotation writes
for a character shows where it ends: a plain character stands for itself, and an escape is told by
the character after the backslash and, if it holds a code point, by the brace that closes it.

## Main results

* `hexDigits_injective` — different numbers have different digits
* `escapeChar_append_inj` — the first character of a text is known by what its quotation begins with
* `eq_of_flatMap_eq` — things that are written one after the other
* `quote_injective` — different texts have different quotations
* `newline_not_mem_quote` — a quotation is on one line
-/

namespace SearchQuery.Text

/-! ### Code points -/

theorem digitChar_inj {m n : Nat} (hm : m < 16) (hn : n < 16)
    (h : Nat.digitChar m = Nat.digitChar n) : m = n := by
  have hall : ∀ i < 16, ∀ j < 16, Nat.digitChar i = Nat.digitChar j → i = j := by decide
  exact hall m hm n hn h

theorem hexDigits_of_lt {n : Nat} (h : n < 16) : hexDigits n = [Nat.digitChar n] :=
  Nat.toDigits_of_lt_base h

theorem hexDigits_of_le {n : Nat} (h : 16 ≤ n) :
    hexDigits n = hexDigits (n / 16) ++ [Nat.digitChar (n % 16)] := by
  rw [hexDigits, Nat.toDigits_eq_if (by decide), if_neg (Nat.not_lt.2 h)]
  rfl

theorem hexDigits_ne_nil (n : Nat) : hexDigits n ≠ [] := Nat.toDigits_ne_nil

/-- A digit and more are not a single digit. -/
theorem hexDigits_append_ne (n : Nat) (c d : Char) : hexDigits n ++ [c] ≠ [d] := by
  intro h
  have hlength := congrArg List.length h
  have := List.length_pos_iff.2 (hexDigits_ne_nil n)
  simp only [List.length_append, List.length_singleton] at hlength
  omega

theorem hexDigits_injective : Function.Injective hexDigits := by
  intro m n h
  induction m using Nat.strongRecOn generalizing n with
  | ind m ih =>
    by_cases hm : m < 16 <;> by_cases hn : n < 16
    · rw [hexDigits_of_lt hm, hexDigits_of_lt hn] at h
      exact digitChar_inj hm hn (List.cons.inj h).1
    · rw [hexDigits_of_lt hm, hexDigits_of_le (Nat.not_lt.1 hn)] at h
      exact absurd h.symm (hexDigits_append_ne _ _ _)
    · rw [hexDigits_of_le (Nat.not_lt.1 hm), hexDigits_of_lt hn] at h
      exact absurd h (hexDigits_append_ne _ _ _)
    · rw [hexDigits_of_le (Nat.not_lt.1 hm), hexDigits_of_le (Nat.not_lt.1 hn)] at h
      obtain ⟨hinit, hlast⟩ := List.append_inj' h rfl
      have hquotient : m / 16 = n / 16 := ih (m / 16) (by omega) hinit
      have hremainder : m % 16 = n % 16 :=
        digitChar_inj (Nat.mod_lt _ (by decide)) (Nat.mod_lt _ (by decide)) (List.cons.inj hlast).1
      omega

theorem exists_digitChar_of_mem_hexDigits {n : Nat} {c : Char} (h : c ∈ hexDigits n) :
    ∃ i < 16, c = Nat.digitChar i := by
  induction n using Nat.strongRecOn with
  | ind n ih =>
    by_cases hn : n < 16
    · rw [hexDigits_of_lt hn, List.mem_singleton] at h
      exact ⟨n, hn, h⟩
    · rw [hexDigits_of_le (Nat.not_lt.1 hn), List.mem_append, List.mem_singleton] at h
      rcases h with hinit | hlast
      · exact ih (n / 16) (by omega) hinit
      · exact ⟨n % 16, Nat.mod_lt _ (by decide), hlast⟩

theorem closingBrace_not_mem_hexDigits (n : Nat) : '\x7d' ∉ hexDigits n := by
  intro h
  obtain ⟨i, hi, heq⟩ := exists_digitChar_of_mem_hexDigits h
  have hnone : ∀ i < 16, '\x7d' ≠ Nat.digitChar i := by decide
  exact hnone i hi heq

theorem newline_not_mem_hexDigits (n : Nat) : '\n' ∉ hexDigits n := by
  intro h
  obtain ⟨i, hi, heq⟩ := exists_digitChar_of_mem_hexDigits h
  have hnone : ∀ i < 16, '\n' ≠ Nat.digitChar i := by decide
  exact hnone i hi heq

/-! ### Characters -/

/-- The parts before the first place of a character that is in neither of them are the same. -/
theorem eq_of_append_cons_eq {x : Char} {cs ds cs' ds' : List Char} (hcs : x ∉ cs) (hds : x ∉ ds)
    (h : cs ++ x :: cs' = ds ++ x :: ds') : cs = ds ∧ cs' = ds' := by
  induction cs generalizing ds with
  | nil =>
    cases ds with
    | nil => exact ⟨rfl, (List.cons.inj h).2⟩
    | cons d ds => exact absurd (by simp [(List.cons.inj h).1]) hds
  | cons c cs ih =>
    cases ds with
    | nil => exact absurd (by simp [(List.cons.inj h).1]) hcs
    | cons d ds =>
      obtain ⟨rfl, hrest⟩ := List.cons.inj h
      obtain ⟨rfl, rfl⟩ := ih (List.not_mem_of_not_mem_cons hcs)
        (List.not_mem_of_not_mem_cons hds) hrest
      exact ⟨rfl, rfl⟩

/-- The character that a letter after a backslash stands for. -/
def ofLetter (letter : Char) : Char :=
  if letter = '0' then '\x00'
  else if letter = 't' then '\t'
  else if letter = 'r' then '\r'
  else if letter = 'n' then '\n'
  else letter

/-- A character stands for itself, or it is written as a letter after a backslash or as its code
point. -/
theorem escapeChar_cases (c : Char) :
    (escapeChar c = [c] ∧ c ≠ '\\' ∧ c ≠ '\n') ∨
      (∃ letter, escapeChar c = ['\\', letter] ∧ letter ≠ 'u' ∧ letter ≠ '\n' ∧
        ofLetter letter = c) ∨
      escapeChar c = '\\' :: 'u' :: '\x7b' :: (hexDigits c.toNat ++ ['\x7d']) := by
  rw [escapeChar.eq_def]
  split_ifs with hnull htab hreturn hnewline hquote hbackslash hhidden
  · exact .inr (.inl ⟨'0', rfl, by decide, by decide, hnull.symm⟩)
  · exact .inr (.inl ⟨'t', rfl, by decide, by decide, htab.symm⟩)
  · exact .inr (.inl ⟨'r', rfl, by decide, by decide, hreturn.symm⟩)
  · exact .inr (.inl ⟨'n', rfl, by decide, by decide, hnewline.symm⟩)
  · exact .inr (.inl ⟨'"', rfl, by decide, by decide, hquote.symm⟩)
  · exact .inr (.inl ⟨'\\', rfl, by decide, by decide, hbackslash.symm⟩)
  · exact .inr (.inr rfl)
  · exact .inl ⟨rfl, hbackslash, hnewline⟩

theorem escapeChar_ne_nil (c : Char) : escapeChar c ≠ [] := by
  rcases escapeChar_cases c with ⟨h, -⟩ | ⟨letter, h, -⟩ | h <;>
    (rw [h]; exact List.cons_ne_nil _ _)

theorem newline_not_mem_escapeChar (c : Char) : '\n' ∉ escapeChar c := by
  rcases escapeChar_cases c with ⟨h, -, hc⟩ | ⟨letter, h, -, hletter, -⟩ | h
  · simp [h, hc.symm]
  · simp [h, hletter.symm]
  · simp [h, newline_not_mem_hexDigits]

/-- **What is written for a character shows where it ends.** -/
theorem escapeChar_append_inj {c d : Char} {cs ds : List Char}
    (h : escapeChar c ++ cs = escapeChar d ++ ds) : c = d ∧ cs = ds := by
  rcases escapeChar_cases c with ⟨hc, hbackslash, -⟩ | ⟨letter, hc, hu, -, hof⟩ | hc <;>
    rcases escapeChar_cases d with ⟨hd, hbackslash', -⟩ | ⟨letter', hd, hu', -, hof'⟩ | hd <;>
    rw [hc, hd] at h
  case inl.inl => exact List.cons.inj h
  case inr.inl.inr.inl =>
    obtain ⟨hletter, hrest⟩ := List.cons.inj (List.cons.inj h).2
    exact ⟨by rw [← hof, ← hof', hletter], hrest⟩
  case inr.inr.inr.inr =>
    simp only [List.cons_append, List.append_assoc, List.cons.injEq, true_and, List.nil_append] at h
    obtain ⟨hdigits, hrest⟩ := eq_of_append_cons_eq (closingBrace_not_mem_hexDigits _)
      (closingBrace_not_mem_hexDigits _) h
    exact ⟨Char.toNat_inj.1 (hexDigits_injective hdigits), hrest⟩
  case inl.inr.inl | inl.inr.inr => exact absurd (List.cons.inj h).1 hbackslash
  case inr.inl.inl | inr.inr.inl => exact absurd (List.cons.inj h).1.symm hbackslash'
  case inr.inl.inr.inr => exact absurd (List.cons.inj (List.cons.inj h).2).1 hu
  case inr.inr.inr.inl => exact absurd (List.cons.inj (List.cons.inj h).2).1.symm hu'

/-! ### Texts -/

/-- Things written one after the other are known by what is written, if what is written for each of
them shows where it ends. -/
theorem eq_of_flatMap_eq {α β : Type} {write : α → List β} {P : α → Prop}
    (hne : ∀ x, write x ≠ [])
    (hinj : ∀ {x y : α} {cs ds : List β}, P x → P y → write x ++ cs = write y ++ ds →
      x = y ∧ cs = ds)
    {xs ys : List α} (hxs : ∀ x ∈ xs, P x) (hys : ∀ y ∈ ys, P y)
    (h : xs.flatMap write = ys.flatMap write) : xs = ys := by
  induction xs generalizing ys with
  | nil =>
    cases ys with
    | nil => rfl
    | cons y ys =>
      rw [List.flatMap_nil, List.flatMap_cons] at h
      exact absurd (List.append_eq_nil_iff.1 h.symm).1 (hne y)
  | cons x xs ih =>
    cases ys with
    | nil =>
      rw [List.flatMap_nil, List.flatMap_cons] at h
      exact absurd (List.append_eq_nil_iff.1 h).1 (hne x)
    | cons y ys =>
      rw [List.forall_mem_cons] at hxs hys
      rw [List.flatMap_cons, List.flatMap_cons] at h
      obtain ⟨rfl, hrest⟩ := hinj hxs.1 hys.1 h
      rw [ih hxs.2 hys.2 hrest]

/-- **Different texts have different quotations.** -/
theorem quote_injective : Function.Injective quote := by
  intro s t h
  have hchars := String.ofList_injective h
  have hbody := List.append_cancel_right (List.cons.inj hchars).2
  refine String.toList_injective (eq_of_flatMap_eq (P := fun _ => True) escapeChar_ne_nil
    (fun _ _ => escapeChar_append_inj) (fun _ _ => trivial) (fun _ _ => trivial) hbody)

/-- **A quotation is on one line.** -/
theorem newline_not_mem_quote (s : String) : '\n' ∉ (quote s).toList := by
  rw [quote, String.toList_ofList]
  simp [newline_not_mem_escapeChar]

end SearchQuery.Text
