import SearchQuery.Proofs.Text.Lowercase
import SearchQuery.Toml.Reader
import SearchQuery.Toml.Writer

/-!
# Strings of settings files are read back

A string is written in one of four forms, and each form has its reader. The basic forms can hold
every text, since what cannot stand for itself is escaped. The literal forms have no escapes, so
they are only chosen for texts that need none.

## Runs of quotes

Between three quotes on each side a string may hold quotes and end in quotes. The reader looks at
runs of quotes: three or more end the string, and then all but the last three belong to it. So the
writer lets no run in the text become longer than two, and a run of the text meets the closing
quotes only at the end. `Spaced` says this of what is written: it begins with a short run even when
`run` quotes precede it, or it is nothing but such a run.

## Main definitions

* `Spaced` — no run of quotes is too long at the front of a text

## Main results

* `basic?_append`, `literal?_append`, `longBasic?_append`, `longLiteral?_append` — the four forms
* `stringValue?_append` — a string is read back
* `keyPart?_append` — a key is read back
-/

namespace SearchQuery.Toml

open Text

variable {c : Char} {cs rest : List Char}

/-! ### Characters of basic strings -/

theorem codePoint?_fourDigits (h : needsEscape c = true) :
    (fourDigits c.toNat).length = 4 ∧ codePoint? (fourDigits c.toNat) = some c := by
  have hascii : isAscii c = true := by
    simp only [needsEscape, Bool.or_eq_true, Bool.and_eq_true, decide_eq_true_eq, beq_iff_eq] at h
    simp only [isAscii, decide_eq_true_eq]
    omega
  exact forall_ascii (P := fun c => needsEscape c = true → (fourDigits c.toNat).length = 4 ∧
    codePoint? (fourDigits c.toNat) = some c) (by decide) hascii h

/-- What needs no escape stands for itself, unless it ends a line. -/
theorem isPlain_of_needsEscape (h : needsEscape c = false) :
    c ≠ '\r' ∧ (isPlain c || c == '\n') = true := by
  refine ⟨fun hreturn => ?_, ?_⟩
  · subst hreturn
    cases h
  · simp only [needsEscape, Bool.or_eq_false_iff, Bool.and_eq_false_iff, decide_eq_false_iff_not,
      beq_eq_false_iff_ne, bne_eq_false_iff_eq] at h
    simp only [isPlain, Bool.or_eq_true, Bool.and_eq_true, decide_eq_true_eq, beq_iff_eq,
      bne_iff_ne]
    obtain ⟨(hlow | rfl) | rfl, hdelete⟩ := h
    · exact .inl (.inr ⟨Nat.not_lt.1 hlow, hdelete⟩)
    · exact .inl (.inl rfl)
    · exact .inr rfl

/-- A character is escaped, or it stands for itself. -/
theorem basicChar_cases (c : Char) :
    (∃ e, basicChar c = '\\' :: e ∧ ∀ rest, escape? (e ++ rest) = some (c, rest)) ∨
      (basicChar c = [c] ∧ c ≠ '"' ∧ c ≠ '\\' ∧ c ≠ '\r' ∧ isPlain c = true) := by
  rw [basicChar.eq_def]
  split
  case h_8 _ _ _ hn _ hr hquote hbackslash =>
    split
    · rename_i hescape
      obtain ⟨hlength, hcode⟩ := codePoint?_fourDigits hescape
      refine .inl ⟨_, rfl, fun rest => ?_⟩
      rw [List.cons_append, escape?, ← hlength, List.take_left, List.drop_left, hcode]
      simp
    · rename_i hescape
      have hplain := (isPlain_of_needsEscape (Bool.not_eq_true _ ▸ hescape)).2
      rw [beq_eq_false_iff_ne.2 hn, Bool.or_false] at hplain
      exact .inr ⟨rfl, hquote, hbackslash, hr, hplain⟩
  all_goals exact .inl ⟨_, rfl, fun rest => rfl⟩

/-! ### Strings on one line -/

theorem basic?_escape (h : escape? cs = some (c, rest)) :
    basic? ('\\' :: cs) = (basic? rest).map (consContent c) := by
  rw [basic?]
  split
  · rename_i h'
    cases h.symm.trans h'
    rfl
  · rename_i h'
    cases h.symm.trans h'

theorem basic?_plain (hquote : c ≠ '"') (hbackslash : c ≠ '\\') (hplain : isPlain c = true) :
    basic? (c :: cs) = (basic? cs).map (consContent c) := by
  rw [basic?.eq_4 _ _ hquote hbackslash, if_pos hplain]

/-- A basic string is read back. -/
theorem basic?_append (cs rest : List Char) :
    basic? (cs.flatMap basicChar ++ '"' :: rest) = some (cs, rest) := by
  induction cs with
  | nil => rw [List.flatMap_nil, List.nil_append, basic?]
  | cons c cs ih =>
    rw [List.flatMap_cons, List.append_assoc]
    rcases basicChar_cases c with ⟨e, he, hescape⟩ | ⟨hc, hquote, hbackslash, -, hplain⟩
    · rw [he, List.cons_append, basic?_escape (hescape _), ih]
      rfl
    · rw [hc, List.singleton_append, basic?_plain hquote hbackslash hplain, ih]
      rfl

/-- A literal string is read back. -/
theorem literal?_append (h : ∀ c ∈ cs, c ≠ '\'' ∧ isPlain c = true) (rest : List Char) :
    literal? (cs ++ '\'' :: rest) = some (cs, rest) := by
  induction cs with
  | nil => rfl
  | cons c cs ih =>
    rw [List.forall_mem_cons] at h
    obtain ⟨⟨hquote, hplain⟩, h⟩ := h
    rw [List.cons_append, literal?.eq_3 _ _ hquote, if_pos hplain, ih h]
    rfl

/-! ### Runs of quotes -/

variable {quote : Char}

theorem quoteRun_cons_le (cs : List Char) : quoteRun quote (c :: cs) ≤ quoteRun quote cs + 1 := by
  have hshorter : (List.takeWhile (· == quote) (cs.take 4)).length ≤ quoteRun quote cs := by
    rw [quoteRun, ← List.take_takeWhile, ← List.take_takeWhile, List.length_take, List.length_take]
    omega
  rw [quoteRun, List.take_succ_cons, List.takeWhile_cons]
  split
  · rw [List.length_cons]
    omega
  · simp

theorem quoteRun_cons_of_ne (h : c ≠ quote) (cs : List Char) : quoteRun quote (c :: cs) = 0 := by
  simp [quoteRun, h]

/-- A run up to the closing quotes is seen together with them, and nothing else is. -/
theorem quoteRun_close {m : Nat} (hm : m ≤ 2) (h : rest.head? ≠ some quote) :
    quoteRun quote (List.replicate m quote ++ (quote :: quote :: quote :: rest)) = m + 3 := by
  have hrest (k : Nat) : List.takeWhile (· == quote) (rest.take k) = [] := by
    cases rest with
    | nil => simp
    | cons c rest => cases k <;> simp_all
  have hcases : m = 0 ∨ m = 1 ∨ m = 2 := by omega
  rcases hcases with rfl | rfl | rfl <;> simp [quoteRun, List.replicate, hrest]

theorem replicate_append_close (m : Nat) (quote : Char) (rest : List Char) :
    List.replicate m quote ++ (quote :: quote :: quote :: rest) =
      quote :: (List.replicate (m + 2) quote ++ rest) := by
  induction m with
  | zero => rfl
  | succ m ih =>
    rw [List.replicate_succ, List.cons_append, ih]
    rfl

/-- No run of quotes is too long at the front of what is written for a text, when `run` quotes
precede it. A run up to the end may be followed by the closing quotes. -/
def Spaced (quote : Char) (run : Nat) (cs written : List Char) : Prop :=
  (∃ m, m + run ≤ 2 ∧ cs = List.replicate m quote ∧ written = List.replicate m quote) ∨
    ∀ tail, quoteRun quote (written ++ tail) + run ≤ 2

theorem spaced_of_head_ne {run : Nat} (hrun : run ≤ 2) {written : List Char} (h : c ≠ quote) :
    Spaced quote run cs (c :: written) := by
  refine .inr fun tail => ?_
  rw [List.cons_append, quoteRun_cons_of_ne h]
  omega

theorem Spaced.cons {run : Nat} {written : List Char} (h : Spaced quote (run + 1) cs written) :
    Spaced quote run (quote :: cs) (quote :: written) := by
  rcases h with ⟨m, hm, rfl, rfl⟩ | h
  · exact .inl ⟨m + 1, by omega, rfl, rfl⟩
  · refine .inr fun tail => ?_
    have hle : quoteRun quote (quote :: (written ++ tail)) ≤ _ := quoteRun_cons_le _
    have htail := h tail
    rw [List.cons_append]
    omega

/-! ### Basic strings over several lines -/

theorem longBasic?_escape (h : escape? cs = some (c, rest)) :
    longBasic? ('\\' :: cs) = (longBasic? rest).map (consContent c) := by
  rw [longBasic?]
  split
  · rename_i h'
    cases h.symm.trans h'
    rfl
  · rename_i h'
    cases h.symm.trans h'

theorem longBasic?_plain (hquote : c ≠ '"') (hbackslash : c ≠ '\\') (hreturn : c ≠ '\r')
    (hplain : (isPlain c || c == '\n') = true) :
    longBasic? (c :: cs) = (longBasic? cs).map (consContent c) := by
  rw [longBasic?.eq_5 _ _ hquote hbackslash fun _ h => absurd h hreturn, if_pos hplain]

theorem longBasic?_quote (h : quoteRun '"' ('"' :: cs) ≤ 2) :
    longBasic? ('"' :: cs) = (longBasic? cs).map (consContent '"') := by
  rw [longBasic?, if_neg (by omega)]

theorem longBasic?_close {m : Nat} (hm : m ≤ 2) (h : rest.head? ≠ some '"') :
    longBasic? (List.replicate m '"' ++ ('"' :: '"' :: '"' :: rest)) =
      some (List.replicate m '"', rest) := by
  have hrun := quoteRun_close hm h
  have hlength : (List.replicate (m + 2) '"').length = m + 3 - 1 := by simp
  rw [replicate_append_close] at hrun ⊢
  rw [longBasic?, hrun, if_pos (by omega), ← hlength, List.drop_left, Nat.add_sub_cancel]

theorem spaced_longBasicBody {run : Nat} (hrun : run ≤ 2) (cs : List Char) :
    Spaced '"' run cs (longBasicBody run cs) := by
  induction cs generalizing run with
  | nil => exact .inl ⟨0, by omega, rfl, rfl⟩
  | cons c cs ih =>
    rw [longBasicBody.eq_def]
    split
    · rename_i h
      cases h
    · exact spaced_of_head_ne hrun (by decide)
    · rename_i h
      cases h
      split
      · exact (ih (by omega)).cons
      · exact spaced_of_head_ne hrun (by decide)
    · rename_i hquote h
      cases h
      rcases basicChar_cases c with ⟨e, he, -⟩ | ⟨hc, -⟩
      · rw [he]
        exact spaced_of_head_ne hrun (by decide)
      · rw [hc]
        exact spaced_of_head_ne hrun hquote

/-- The content of a basic string over several lines is read back. -/
theorem longBasic?_append {run : Nat} (hrun : run ≤ 2) (cs : List Char)
    (h : rest.head? ≠ some '"') :
    longBasic? (longBasicBody run cs ++ ('"' :: '"' :: '"' :: rest)) = some (cs, rest) := by
  induction cs generalizing run with
  | nil => exact longBasic?_close (Nat.zero_le 2) h
  | cons c cs ih =>
    rcases spaced_longBasicBody hrun (c :: cs) with ⟨m, hm, hcs, hbody⟩ | hspaced
    · rw [hbody, hcs]
      exact longBasic?_close (by omega) h
    by_cases hquote : c = '"'
    · subst hquote
      rw [longBasicBody] at hspaced ⊢
      split at hspaced
      · rename_i hroom
        have hshort := Nat.le_of_add_right_le (hspaced ('"' :: '"' :: '"' :: rest))
        rw [List.cons_append] at hshort
        rw [if_pos hroom, List.cons_append, longBasic?_quote hshort, ih (by omega)]
        rfl
      · rename_i hfull
        rw [if_neg hfull, List.cons_append, List.cons_append, longBasic?_escape rfl,
          ih (Nat.zero_le 2)]
        rfl
    by_cases hnewline : c = '\n'
    · subst hnewline
      rw [longBasicBody, List.cons_append,
        longBasic?_plain (by decide) (by decide) (by decide) rfl, ih (Nat.zero_le 2)]
      rfl
    rw [longBasicBody.eq_4 _ _ _ hnewline hquote, List.append_assoc]
    rcases basicChar_cases c with ⟨e, he, hescape⟩ | ⟨hc, -, hbackslash, hreturn, hplain⟩
    · rw [he, List.cons_append, longBasic?_escape (hescape _), ih (Nat.zero_le 2)]
      rfl
    · rw [hc, List.singleton_append,
        longBasic?_plain hquote hbackslash hreturn (by rw [hplain, Bool.true_or]),
        ih (Nat.zero_le 2)]
      rfl

/-! ### Literal strings over several lines -/

theorem longLiteral?_plain (hquote : c ≠ '\'') (hreturn : c ≠ '\r')
    (hplain : (isPlain c || c == '\n') = true) :
    longLiteral? (c :: cs) = (longLiteral? cs).map (consContent c) := by
  rw [longLiteral?.eq_4 _ _ hquote fun _ h => absurd h hreturn, if_pos hplain]

theorem longLiteral?_quote (h : quoteRun '\'' ('\'' :: cs) ≤ 2) :
    longLiteral? ('\'' :: cs) = (longLiteral? cs).map (consContent '\'') := by
  rw [longLiteral?, if_neg (by omega)]

theorem longLiteral?_close {m : Nat} (hm : m ≤ 2) (h : rest.head? ≠ some '\'') :
    longLiteral? (List.replicate m '\'' ++ ('\'' :: '\'' :: '\'' :: rest)) =
      some (List.replicate m '\'', rest) := by
  have hrun := quoteRun_close hm h
  have hlength : (List.replicate (m + 2) '\'').length = m + 3 - 1 := by simp
  rw [replicate_append_close] at hrun ⊢
  rw [longLiteral?, hrun, if_pos (by omega), ← hlength, List.drop_left, Nat.add_sub_cancel]

theorem le_longestRun (c : Char) (run : Nat) (cs : List Char) : run ≤ longestRun c run cs := by
  induction cs generalizing run with
  | nil => exact Nat.le_refl run
  | cons d cs ih =>
    rw [longestRun]
    split
    · exact Nat.le_of_succ_le (ih (run + 1))
    · exact Nat.le_max_left ..

theorem spaced_of_longestRun_le {run : Nat} (h : longestRun quote run cs ≤ 2) :
    Spaced quote run cs cs := by
  induction cs generalizing run with
  | nil => exact .inl ⟨0, by simpa [longestRun] using h, rfl, rfl⟩
  | cons c cs ih =>
    have hrun := Nat.le_trans (le_longestRun quote run (c :: cs)) h
    by_cases hquote : c = quote
    · subst hquote
      rw [longestRun, if_pos rfl] at h
      exact (ih h).cons
    · exact spaced_of_head_ne hrun hquote

/-- The content of a literal string over several lines is read back. -/
theorem longLiteral?_append {run : Nat} (hcontrols : ∀ c ∈ cs, needsEscape c = false)
    (hruns : longestRun '\'' run cs ≤ 2) (h : rest.head? ≠ some '\'') :
    longLiteral? (cs ++ ('\'' :: '\'' :: '\'' :: rest)) = some (cs, rest) := by
  induction cs generalizing run with
  | nil => exact longLiteral?_close (Nat.zero_le 2) h
  | cons c cs ih =>
    rw [List.forall_mem_cons] at hcontrols
    rcases spaced_of_longestRun_le hruns with ⟨m, hm, hcs, -⟩ | hspaced
    · rw [hcs]
      exact longLiteral?_close (by omega) h
    by_cases hquote : c = '\''
    · subst hquote
      rw [longestRun, if_pos rfl] at hruns
      have hshort := Nat.le_of_add_right_le (hspaced ('\'' :: '\'' :: '\'' :: rest))
      rw [List.cons_append] at hshort
      rw [List.cons_append, longLiteral?_quote hshort, ih hcontrols.2 hruns]
      rfl
    · rw [longestRun, if_neg hquote] at hruns
      obtain ⟨hreturn, hplain⟩ := isPlain_of_needsEscape hcontrols.1
      rw [List.cons_append, longLiteral?_plain hquote hreturn hplain,
        ih hcontrols.2 (Nat.le_trans (Nat.le_max_right ..) hruns)]
      rfl

/-! ### Strings and keys -/

theorem longestRun_eq_zero (h : longestRun quote 0 cs = 0) : quote ∉ cs := by
  induction cs with
  | nil => exact List.not_mem_nil
  | cons c cs ih =>
    rw [longestRun] at h
    split at h
    · have hle := le_longestRun quote (0 + 1) cs
      omega
    · rename_i hne
      have hzero : longestRun quote 0 cs = 0 := by omega
      exact mt List.mem_cons.1 (not_or.2 ⟨Ne.symm hne, ih hzero⟩)

theorem lineEndLength_eq_zero (hnewline : c ≠ '\n') (hreturn : c ≠ '\r') (cs : List Char) :
    lineEndLength (c :: cs) = 0 :=
  lineEndLength.eq_3 _ (fun _ h => hnewline (List.cons.inj h).1)
    fun _ h => hreturn (List.cons.inj h).1

/-- Without a line end in the text, no line end follows the opening quotes. -/
theorem lineEndLength_longBasicBody (h : '\n' ∉ cs) (rest : List Char) :
    lineEndLength (longBasicBody 0 cs ++ '"' :: rest) = 0 := by
  cases cs with
  | nil => rfl
  | cons c cs =>
    have hnewline : c ≠ '\n' := Ne.symm (List.ne_of_not_mem_cons h)
    by_cases hquote : c = '"'
    · subst hquote
      rfl
    rw [longBasicBody.eq_4 _ _ _ hnewline hquote, List.append_assoc]
    rcases basicChar_cases c with ⟨e, he, -⟩ | ⟨hc, -, -, hreturn, -⟩
    · rw [he, List.cons_append]
      exact lineEndLength_eq_zero (by decide) (by decide) _
    · rw [hc, List.singleton_append]
      exact lineEndLength_eq_zero hnewline hreturn _

theorem basicText_append (cs rest : List Char) :
    basicText cs ++ rest = '"' :: (cs.flatMap basicChar ++ '"' :: rest) := by
  simp [basicText]

theorem literalText_append (cs rest : List Char) :
    literalText cs ++ rest = '\'' :: (cs ++ '\'' :: rest) := by
  simp [literalText]

theorem quoted?_basicText (cs rest : List Char) :
    quoted? (basicText cs ++ rest) = some (cs, rest) := by
  rw [basicText_append]
  exact basic?_append cs rest

theorem quoted?_literalText (hplain : ∀ c ∈ cs, c ≠ '\'' ∧ isPlain c = true) (rest : List Char) :
    quoted? (literalText cs ++ rest) = some (cs, rest) := by
  rw [literalText_append]
  exact literal?_append hplain rest

theorem stringValue?_basicText (cs : List Char) (h : rest.head? ≠ some '"') :
    stringValue? (basicText cs ++ rest) = some (.string (String.ofList cs), rest) := by
  rw [stringValue?.eq_3, quoted?_basicText]
  · rfl
  · intro tail htail
    rw [basicText_append] at htail
    cases cs with
    | nil => simp_all
    | cons c cs =>
      rw [List.flatMap_cons] at htail
      rcases basicChar_cases c with ⟨e, he, -⟩ | ⟨hc, hquote, -⟩
      · simp [he] at htail
      · simp [hc, hquote] at htail
  · intro tail htail
    simp [basicText] at htail

theorem stringValue?_literalText (hplain : ∀ c ∈ cs, c ≠ '\'' ∧ isPlain c = true)
    (h : rest.head? ≠ some '\'') :
    stringValue? (literalText cs ++ rest) = some (.string (String.ofList cs), rest) := by
  rw [stringValue?.eq_3, quoted?_literalText hplain]
  · rfl
  · intro tail htail
    simp [literalText] at htail
  · intro tail htail
    rw [literalText_append] at htail
    cases cs with
    | nil => simp_all
    | cons c cs => simp [hplain c (List.mem_cons_self ..)] at htail

theorem stringValue?_longBasicText (cs : List Char) (h : rest.head? ≠ some '"') :
    stringValue? (longBasicText cs ++ rest) = some (.string (String.ofList cs), rest) := by
  have hread := longBasic?_append (Nat.zero_le 2) cs h
  by_cases hnewline : '\n' ∈ cs
  · have htext : longBasicText cs ++ rest =
        '"' :: '"' :: '"' :: '\n' :: (longBasicBody 0 cs ++ '"' :: '"' :: '"' :: rest) := by
      simp [longBasicText, hnewline]
    rw [htext, stringValue?, lineEndLength, List.drop_one, List.tail_cons, hread]
    rfl
  · have htext : longBasicText cs ++ rest =
        '"' :: '"' :: '"' :: (longBasicBody 0 cs ++ '"' :: '"' :: '"' :: rest) := by
      simp [longBasicText, hnewline]
    rw [htext, stringValue?, lineEndLength_longBasicBody hnewline, List.drop_zero, hread]
    rfl

theorem stringValue?_longLiteralText (hcontrols : ∀ c ∈ cs, needsEscape c = false)
    (hruns : longestRun '\'' 0 cs ≤ 2) (h : rest.head? ≠ some '\'') :
    stringValue? (longLiteralText cs ++ rest) = some (.string (String.ofList cs), rest) := by
  have hread := longLiteral?_append hcontrols hruns h
  by_cases hnewline : '\n' ∈ cs
  · have htext : longLiteralText cs ++ rest =
        '\'' :: '\'' :: '\'' :: '\n' :: (cs ++ '\'' :: '\'' :: '\'' :: rest) := by
      simp [longLiteralText, hnewline]
    rw [htext, stringValue?, lineEndLength, List.drop_one, List.tail_cons, hread]
    rfl
  · have htext : longLiteralText cs ++ rest =
        '\'' :: '\'' :: '\'' :: (cs ++ '\'' :: '\'' :: '\'' :: rest) := by
      simp [longLiteralText, hnewline]
    have hline : lineEndLength (cs ++ '\'' :: '\'' :: '\'' :: rest) = 0 := by
      cases cs with
      | nil => rfl
      | cons c cs =>
        exact lineEndLength_eq_zero (Ne.symm (List.ne_of_not_mem_cons hnewline))
          (isPlain_of_needsEscape (hcontrols c (List.mem_cons_self ..))).1 _
    rw [htext, stringValue?, hline, List.drop_zero, hread]
    rfl

/-- A literal string is only chosen for a text that stands for itself. -/
theorem isPlain_of_forall (hcontrols : ∀ c ∈ cs, needsEscape c = false) (hnewline : '\n' ∉ cs)
    (hquote : '\'' ∉ cs) : ∀ c ∈ cs, c ≠ '\'' ∧ isPlain c = true := by
  intro c hc
  have hplain := (isPlain_of_needsEscape (hcontrols c hc)).2
  have hne : c ≠ '\n' := fun heq => hnewline (heq ▸ hc)
  rw [beq_eq_false_iff_ne.2 hne, Bool.or_false] at hplain
  exact ⟨fun heq => hquote (heq ▸ hc), hplain⟩

/-- **A string is read back**, if no quote follows it. -/
theorem stringValue?_append (cs : List Char) (hdouble : rest.head? ≠ some '"')
    (hsingle : rest.head? ≠ some '\'') :
    stringValue? (stringChars cs ++ rest) = some (.string (String.ofList cs), rest) := by
  rw [stringChars]
  split
  · exact stringValue?_basicText cs hdouble
  split
  · rename_i h
    simp only [Bool.and_eq_true, Bool.not_eq_true', decide_eq_true_eq, List.any_eq_false,
      Bool.not_eq_true, List.contains_eq_mem, decide_eq_false_iff_not] at h
    obtain ⟨⟨hcontrols, hsingles⟩, hnewline⟩ := h
    have hplain := isPlain_of_forall hcontrols hnewline (longestRun_eq_zero hsingles)
    exact stringValue?_literalText hplain hsingle
  split
  · exact stringValue?_longBasicText cs hdouble
  split
  · rename_i h
    simp only [Bool.and_eq_true, Bool.not_eq_true', decide_eq_true_eq, List.any_eq_false,
      Bool.not_eq_true] at h
    exact stringValue?_longLiteralText h.1 h.2 hsingle
  split
  · exact stringValue?_longBasicText cs hdouble
  · exact stringValue?_basicText cs hdouble

theorem keyPart?_basicText (cs rest : List Char) :
    keyPart? (basicText cs ++ rest) = some (String.ofList cs, rest) := by
  have hread := quoted?_basicText cs rest
  rw [basicText_append] at hread ⊢
  rw [keyPart?, hread]
  rfl

theorem keyPart?_literalText (hplain : ∀ c ∈ cs, c ≠ '\'' ∧ isPlain c = true) (rest : List Char) :
    keyPart? (literalText cs ++ rest) = some (String.ofList cs, rest) := by
  have hread := quoted?_literalText hplain rest
  rw [literalText_append] at hread ⊢
  rw [keyPart?, hread]
  rfl

theorem keyPart?_bare (hne : cs ≠ []) (hbare : ∀ c ∈ cs, isBareKeyChar c = true)
    (h : ∀ c ∈ rest.head?, isBareKeyChar c = false) :
    keyPart? (cs ++ rest) = some (String.ofList cs, rest) := by
  have hrest : rest.takeWhile isBareKeyChar = [] := by
    cases rest with
    | nil => rfl
    | cons c rest => simp_all
  have hpart : (cs ++ rest).takeWhile isBareKeyChar = cs := by
    rw [List.takeWhile_append_of_pos hbare, hrest, List.append_nil]
  cases cs with
  | nil => exact absurd rfl hne
  | cons c cs =>
    have hc := hbare c (List.mem_cons_self ..)
    rw [keyPart?, hpart]
    · simp
    · rintro tail htail
      cases htail
      exact absurd hc (by decide)
    · rintro tail htail
      cases htail
      exact absurd hc (by decide)

/-- **A key is read back**, if nothing follows it that could stand in a key without quotes. -/
theorem keyPart?_append (cs : List Char) (h : ∀ c ∈ rest.head?, isBareKeyChar c = false) :
    keyPart? (keyChars cs ++ rest) = some (String.ofList cs, rest) := by
  rw [keyChars]
  split
  · rename_i hbare
    simp only [Bool.and_eq_true, Bool.not_eq_true', List.all_eq_true, List.isEmpty_eq_false_iff]
      at hbare
    exact keyPart?_bare hbare.1 hbare.2 h
  split
  · exact keyPart?_basicText cs rest
  split
  · rename_i hliteral
    simp only [Bool.and_eq_true, Bool.not_eq_true', List.any_eq_false, Bool.or_eq_true, not_or,
      beq_iff_eq, Bool.not_eq_true, List.contains_eq_mem, decide_eq_false_iff_not] at hliteral
    obtain ⟨hcontrols, hquote⟩ := hliteral
    have hplain := isPlain_of_forall (fun c hc => (hcontrols c hc).1)
      (fun hnewline => (hcontrols _ hnewline).2 rfl) hquote
    exact keyPart?_literalText hplain rest
  · exact keyPart?_basicText cs rest

end SearchQuery.Toml
