import Mathlib.Data.List.Forall2
import SearchQuery.Proofs.Toml.Strings

/-!
# Values of settings files are read back

Truth values, whole numbers and texts are written as one word or one string, and arrays of them with
brackets and commas. What follows a value is then a line end, a comma or a bracket, and none of them
can be taken for a part of it.

## Main definitions

* `Inline` — the values that stand behind a key on one line, arrays nested to a depth
* `ReadsAs` — a text is read as a value, whatever follows it

## Main results

* `scalar?_digits` — digits are read as a whole number and not as a date
* `elements?_lines` — the elements of an array are read back
* `value?_append` — a value is read back
-/

namespace SearchQuery

namespace Number

theorem digits_ne_zero_cons {n : Nat} (h : 0 < n) (cs : List Char) : digits n ≠ '0' :: cs := by
  induction n using Nat.strongRecOn generalizing cs with
  | ind n ih =>
    by_cases hlt : n < 10
    · have hdigit : ∀ n < 10, 0 < n → Nat.digitChar n ≠ '0' := by decide
      rw [digits, Nat.toDigits_of_lt_base hlt]
      exact fun heq => hdigit n hlt h (List.cons.inj heq).1
    · rw [digits, Nat.toDigits_of_base_le (by decide) (Nat.not_lt.1 hlt)]
      intro heq
      obtain ⟨c, front, hfront⟩ := List.exists_cons_of_ne_nil (digits_ne_nil (n / 10))
      rw [digits] at hfront
      rw [hfront, List.cons_append] at heq
      cases heq
      exact ih (n / 10) (by omega) (by omega) front hfront

/-- A number is written without leading zeros. -/
theorem digits_ne_zero_cons_cons (n : Nat) (c : Char) (cs : List Char) :
    digits n ≠ '0' :: c :: cs := by
  cases n with
  | zero => exact fun h => by cases h
  | succ n => exact digits_ne_zero_cons n.succ_pos _

theorem signedDigits_natCast (n : Nat) : signedDigits n = digits n := by
  rw [signedDigits, if_neg (Int.not_lt.2 (Int.natCast_nonneg n)), Int.natAbs_natCast]

end Number

namespace Toml

open Number

variable {cs rest : List Char}

/-! ### Digits -/

theorem hexValue?_of_isDigit {c : Char} (h : c.isDigit = true) :
    hexValue? c = some (c.toNat - '0'.toNat) := if_pos h

theorem toNat_sub_lt_of_isDigit {c : Char} (h : c.isDigit = true) : c.toNat - '0'.toNat < 10 := by
  have hle := (Char.isDigit_iff_toNat.1 h).2
  have hzero : '0'.toNat = 48 := rfl
  have hnine : '9'.toNat = 57 := rfl
  omega

theorem ne_of_isDigit {c d : Char} (h : c.isDigit = true) (hd : d.isDigit = false) : c ≠ d :=
  fun heq => by rw [heq, hd] at h; cases h

theorem basedNumber?_digits {n : Nat} {last : Bool} (h : ∀ c ∈ cs, c.isDigit = true)
    (hne : cs ≠ [] ∨ last = true) :
    basedNumber? 10 n last cs = some (Nat.ofDigitChars 10 cs n) := by
  induction cs generalizing n last with
  | nil =>
    have hlast : last = true := by simpa using hne
    rw [basedNumber?, if_pos hlast]
    rfl
  | cons c cs ih =>
    rw [List.forall_mem_cons] at h
    rw [basedNumber?.eq_3 _ _ _ _ _ (ne_of_isDigit h.1 rfl), hexValue?_of_isDigit h.1,
      Option.bind_some, if_pos (toNat_sub_lt_of_isDigit h.1), ih h.2 (.inr rfl),
      Nat.ofDigitChars_cons]

theorem takeNumber?_rest {count n : Nat} {tail : List Char}
    (h : takeNumber? count cs = some (n, tail)) : tail = cs.drop count := by
  rw [takeNumber?] at h
  split at h
  · cases h
    rfl
  · cases h

theorem after?_of_isDigit {c : Char} (h : ∀ c ∈ cs, c.isDigit = true) (hc : c.isDigit = false) :
    after? c cs = none := by
  cases cs with
  | nil => rfl
  | cons d cs => exact if_neg (ne_of_isDigit (h d (List.mem_cons_self ..)) hc).symm

/-- Digits alone are no date and no time. -/
theorem date?_digits (h : ∀ c ∈ cs, c.isDigit = true) : date? cs = none := by
  have hdrop (k : Nat) : ∀ c ∈ cs.drop k, c.isDigit = true :=
    fun c hc => h c (List.mem_of_mem_drop hc)
  have hday : afterDay? cs = none := by
    rw [afterDay?]
    cases hyear : takeNumber? 4 cs with
    | none => rfl
    | some r =>
      obtain ⟨n, tail⟩ := r
      have htail := takeNumber?_rest hyear
      subst htail
      simp [after?_of_isDigit (hdrop 4) (c := '-') rfl]
  have htime : time? cs = none := by
    rw [time?]
    cases hhour : takeNumber? 2 cs with
    | none => rfl
    | some r =>
      obtain ⟨n, tail⟩ := r
      have htail := takeNumber?_rest hhour
      subst htail
      simp [after?_of_isDigit (hdrop 2) (c := ':') rfl]
  rw [date?, hday, htime]

theorem decimalNumber?_digits (n : Nat) : decimalNumber? (digits n) = some n := by
  have hzero : ¬ (1 < (digits n).length && (digits n).head? == some '0') = true := by
    rw [Bool.and_eq_true, decide_eq_true_eq, beq_iff_eq]
    rintro ⟨hlength, hhead⟩
    obtain ⟨tail, htail⟩ := List.head?_eq_some_iff.1 hhead
    rw [htail, List.length_cons] at hlength
    obtain ⟨c, cs, hcs⟩ := List.exists_cons_of_length_pos (Nat.lt_of_succ_lt_succ hlength)
    exact digits_ne_zero_cons_cons n c cs (hcs ▸ htail)
  rw [decimalNumber?, if_neg hzero,
    basedNumber?_digits (fun _ => isDigit_of_mem_digits) (.inl (digits_ne_nil n))]
  exact congrArg some (ofDigits_digits n)

theorem integer?_digits {n : Nat} (h : (n : Int) ≤ Int64.maxValue.toInt) :
    integer? (digits n) = some (n : Int) := by
  have hsign : takeSign (digits n) = (false, digits n) := by
    have hne {c : Char} (hc : c.isDigit = false) (cs : List Char) : digits n ≠ c :: cs := by
      intro heq
      have hdigit := isDigit_of_mem_digits (heq ▸ List.mem_cons_self ..)
      rw [hc] at hdigit
      cases hdigit
    exact takeSign.eq_3 _ (hne rfl) (hne rfl)
  have hwhole : wholeNumber? (digits n) = some (n : Int) := by
    rw [wholeNumber?.eq_4 _ (digits_ne_zero_cons_cons n _) (digits_ne_zero_cons_cons n _)
      (digits_ne_zero_cons_cons n _), hsign]
    simp [decimalNumber?_digits]
  have hmax : Int64.maxValue.toInt = 9223372036854775807 := rfl
  have hlow : (Nat.pow 2 127 : Int) = 170141183460469231731687303715884105728 := rfl
  have hhigh : (Nat.pow 2 128 : Int) = 340282366920938463463374607431768211456 := rfl
  rw [integer?, hwhole, Option.filter_some, if_pos]
  rw [Bool.and_eq_true, decide_eq_true_eq, decide_eq_true_eq]
  omega

/-- Digits are read as a whole number. -/
theorem scalar?_digits {n : Nat} (h : (n : Int) ≤ Int64.maxValue.toInt) :
    scalar? (digits n) = some (.integer n) := by
  have hdigits : ∀ c ∈ digits n, c.isDigit = true := fun _ => isDigit_of_mem_digits
  have hword {w : List Char} (hw : w.all Char.isDigit = false) : ¬ (digits n == w) = true := by
    rw [beq_iff_eq]
    rintro rfl
    rw [List.all_eq_true.2 hdigits] at hw
    cases hw
  rw [scalar?, if_neg (hword rfl), if_neg (hword rfl), date?_digits hdigits, integer?_digits h]
  rfl

/-! ### Words -/

/-- Whether a value may begin with `c`. -/
def isValueStart (c : Char) : Bool := c.isDigit || ['t', 'f', '"', '\'', '['].contains c

/-- A value ends where the text goes on with a line end, a comma or a bracket. -/
def EndsValue (rest : List Char) : Prop :=
  ∃ c tail, rest = c :: tail ∧ (c = '\n' ∨ c = ',' ∨ c = ']')

theorem word_append {w : List Char} (hw : ∀ c ∈ w, endsWord c = false) (hrest : EndsValue rest) :
    word (w ++ rest) = w := by
  obtain ⟨c, tail, rfl, hc⟩ := hrest
  have hends : endsWord c = true := by rcases hc with rfl | rfl | rfl <;> rfl
  have hfirst : (w ++ c :: tail).takeWhile (!endsWord ·) = w := by
    rw [List.takeWhile_append_of_pos (by simpa using hw), List.takeWhile_cons, hends]
    simp
  have hspace : c ≠ ' ' := by rcases hc with rfl | rfl | rfl <;> decide
  rw [word]
  simp only [hfirst, List.drop_left]
  split
  · rename_i heq
    cases heq
    exact absurd rfl hspace
  · rfl

theorem scalarValue?_append {w : List Char} {d : Data} (hw : ∀ c ∈ w, endsWord c = false)
    (hd : scalar? w = some d) (hrest : EndsValue rest) :
    scalarValue? (w ++ rest) = some (d, rest) := by
  rw [scalarValue?]
  simp only [word_append hw hrest, hd, List.drop_left]
  rfl

/-! ### Values -/

/-- The text is read as the value, whatever follows it. -/
structure ReadsAs (depth : Nat) (d : Data) (text : List Char) : Prop where
  /-- It cannot be taken for what stands between values. -/
  exists_start : ∃ c tail, text = c :: tail ∧ isValueStart c = true
  /-- It is read. -/
  valueWithin?_eq : ∀ {fuel : Nat} {rest : List Char}, text.length ≤ fuel → EndsValue rest →
    valueWithin? fuel depth (text ++ rest) = some (d, rest)

theorem ne_of_isValueStart {c d : Char} (h : isValueStart c = true) (hd : isValueStart d = false) :
    c ≠ d := fun heq => by rw [heq, hd] at h; cases h

theorem readsAs_of_scalar? {depth : Nat} {d : Data} {c : Char} {w : List Char}
    (hw : ∀ c ∈ w, endsWord c = false) (hd : scalar? w = some d) (hstart : w.head? = some c)
    (hc : isValueStart c = true) : ReadsAs depth d w where
  exists_start := by
    obtain ⟨tail, htail⟩ := List.head?_eq_some_iff.1 hstart
    exact ⟨c, tail, htail, hc⟩
  valueWithin?_eq {fuel rest} hfuel hrest := by
    have hread := scalarValue?_append hw hd hrest
    obtain ⟨tail, rfl⟩ := List.head?_eq_some_iff.1 hstart
    have hends := hw c (List.mem_cons_self ..)
    have hne {e : Char} (he : endsWord e = true) : c ≠ e := fun heq => by
      rw [heq, he] at hends
      cases hends
    obtain ⟨fuel, rfl⟩ := Nat.exists_eq_succ_of_ne_zero (Nat.ne_zero_of_lt hfuel)
    rw [List.cons_append] at hread ⊢
    rw [valueWithin?.eq_6 _ _ _ (fun _ h => hne rfl (List.cons.inj h).1)
      (fun _ h => hne rfl (List.cons.inj h).1) (fun _ _ h _ => hne rfl (List.cons.inj h).1)
      (fun _ _ h _ => hne rfl (List.cons.inj h).1), hread]

theorem readsAs_bool (depth : Nat) (b : Bool) :
    ReadsAs depth (.bool b) (if b then "true".toList else "false".toList) := by
  cases b
  · exact readsAs_of_scalar? (c := 'f') (by simp [endsWord, isSpace]) rfl rfl rfl
  · exact readsAs_of_scalar? (c := 't') (by simp [endsWord, isSpace]) rfl rfl rfl

theorem endsWord_of_isDigit {c : Char} (h : c.isDigit = true) : endsWord c = false := by
  have hascii : Text.isAscii c = true :=
    Text.isAscii_of_isAlphanum (by rw [Char.isAlphanum, h, Bool.or_true])
  exact Text.forall_ascii (P := fun c => c.isDigit = true → endsWord c = false) (by decide)
    hascii h

theorem readsAs_digits (depth : Nat) {n : Nat} (h : (n : Int) ≤ Int64.maxValue.toInt) :
    ReadsAs depth (.integer n) (digits n) := by
  have hdigits : ∀ c ∈ digits n, c.isDigit = true := fun _ => isDigit_of_mem_digits
  obtain ⟨c, tail, htail⟩ := List.exists_cons_of_ne_nil (digits_ne_nil n)
  have hc : c.isDigit = true := hdigits c (htail ▸ List.mem_cons_self ..)
  refine readsAs_of_scalar? (fun c hc => endsWord_of_isDigit (hdigits c hc)) (scalar?_digits h)
    (c := c) (by rw [htail, List.head?_cons]) ?_
  rw [isValueStart, hc, Bool.true_or]

theorem exists_stringChars_eq (cs : List Char) :
    ∃ tail, stringChars cs = '"' :: tail ∨ stringChars cs = '\'' :: tail := by
  rw [stringChars]
  split
  · exact ⟨_, .inl rfl⟩
  split
  · exact ⟨_, .inr rfl⟩
  split
  · exact ⟨_, .inl rfl⟩
  split
  · exact ⟨_, .inr rfl⟩
  split
  · exact ⟨_, .inl rfl⟩
  · exact ⟨_, .inl rfl⟩

theorem EndsValue.head?_ne (h : EndsValue rest) {c : Char} (hc : c ≠ '\n' ∧ c ≠ ',' ∧ c ≠ ']') :
    rest.head? ≠ some c := by
  obtain ⟨d, tail, rfl, hd⟩ := h
  rintro ⟨⟩
  rcases hd with rfl | rfl | rfl
  · exact hc.1 rfl
  · exact hc.2.1 rfl
  · exact hc.2.2 rfl

theorem readsAs_string (depth : Nat) (s : String) :
    ReadsAs depth (.string s) (stringChars s.toList) where
  exists_start := by
    obtain ⟨tail, htail | htail⟩ := exists_stringChars_eq s.toList
    · exact ⟨_, tail, htail, rfl⟩
    · exact ⟨_, tail, htail, rfl⟩
  valueWithin?_eq {fuel rest} hfuel hrest := by
    have hread := stringValue?_append s.toList (hrest.head?_ne (c := '"') (by decide))
      (hrest.head?_ne (by decide))
    rw [String.ofList_toList] at hread
    obtain ⟨tail, htail | htail⟩ := exists_stringChars_eq s.toList
    all_goals
      rw [htail] at hread hfuel ⊢
      obtain ⟨fuel, rfl⟩ := Nat.exists_eq_succ_of_ne_zero (Nat.ne_zero_of_lt hfuel)
      exact hread

/-! ### Arrays -/

/-- Whether what means nothing between elements may begin with `c`. -/
def startsFiller (c : Char) : Bool := [' ', '\t', '#', '\n', '\r'].contains c

theorem startsFiller_of_isValueStart {c : Char} (h : isValueStart c = true) :
    startsFiller c = false := by
  rw [Bool.eq_false_iff]
  intro hfiller
  simp only [startsFiller, List.contains_cons, List.contains_nil, Bool.or_false, Bool.or_eq_true,
    beq_iff_eq] at hfiller
  rcases hfiller with rfl | rfl | rfl | rfl | rfl <;> cases h

theorem skipLines?_eq_self {c : Char} (h : startsFiller c = false) (fuel : Nat) (cs : List Char) :
    skipLines? fuel (c :: cs) = some (c :: cs) := by
  simp only [startsFiller, List.contains_cons, List.contains_nil, Bool.or_false,
    Bool.or_eq_false_iff, beq_eq_false_iff_ne] at h
  obtain ⟨hspace, htab, hhash, hnewline, hreturn⟩ := h
  have hskip : skipSpaces (c :: cs) = c :: cs := by
    rw [skipSpaces, List.dropWhile_cons_of_neg]
    simp [isSpace, hspace, htab]
  have hcomment : skipComment? (c :: cs) = some (c :: cs) :=
    skipComment?.eq_2 _ fun _ heq => hhash (List.cons.inj heq).1
  cases fuel with
  | zero => rfl
  | succ fuel =>
    rw [skipLines?, hskip, hcomment]
    simp [lineEndLength_eq_zero hnewline hreturn]

theorem skipFiller?_eq_self {c : Char} (h : startsFiller c = false) (cs : List Char) :
    skipFiller? (c :: cs) = some (c :: cs) := skipLines?_eq_self h _ cs

/-- Between elements on lines of their own stand a line end and four spaces. -/
theorem skipFiller?_indented {c : Char} (h : startsFiller c = false) (cs : List Char) :
    skipFiller? ('\n' :: ' ' :: ' ' :: ' ' :: ' ' :: c :: cs) = some (c :: cs) :=
  skipLines?_eq_self h (cs.length + 5) cs

theorem skipFiller?_newline {c : Char} (h : startsFiller c = false) (cs : List Char) :
    skipFiller? ('\n' :: c :: cs) = some (c :: cs) :=
  skipLines?_eq_self h (c :: cs).length cs

variable {depth : Nat} {ds : List Data} {texts : List (List Char)}

theorem elements?_nil (fuel : Nat) (rest : List Char) :
    elements? (fuel + 1) depth (']' :: rest) = some ([], rest) := by
  rw [elements?, skipFiller?_eq_self rfl]
  rfl

/-- What follows the first element of an array decides whether there are more. -/
theorem elements?_eq_bind {c : Char} {d : Data} {cs text : List Char} {fuel : Nat}
    (hc : isValueStart c = true) (hskip : skipFiller? cs = some (c :: text))
    (hread : valueWithin? fuel depth (c :: text) = some (d, rest)) :
    elements? (fuel + 1) depth cs = (skipFiller? rest).bind fun
      | ']' :: rest => some ([d], rest)
      | ',' :: rest => (elements? fuel depth rest).bind fun (ds, rest) => some (d :: ds, rest)
      | _ => none := by
  have hbracket : c ≠ ']' := ne_of_isValueStart hc rfl
  rw [elements?, hskip]
  dsimp only [Option.bind_eq_bind, Option.bind_some]
  split
  · rename_i heq
    exact absurd (List.cons.inj heq).1 hbracket
  · rw [hread]
    rfl

theorem elements?_single {d : Data} {text : List Char} (h : ReadsAs depth d text) {fuel : Nat}
    (hfuel : text.length ≤ fuel) (rest : List Char) :
    elements? (fuel + 1) depth (text ++ ']' :: rest) = some ([d], rest) := by
  have hread := h.valueWithin?_eq hfuel ⟨']', rest, rfl, .inr (.inr rfl)⟩
  obtain ⟨c, tail, rfl, hc⟩ := h.exists_start
  rw [List.cons_append] at hread ⊢
  rw [elements?_eq_bind hc (skipFiller?_eq_self (startsFiller_of_isValueStart hc) _) hread,
    skipFiller?_eq_self rfl]
  rfl

/-- The elements of an array, each on a line of its own, up to the closing bracket. -/
def elementLines (texts : List (List Char)) : List Char :=
  '\n' :: texts.flatMap (fun text => "    ".toList ++ text ++ [',', '\n']) ++ [']']

theorem elementLines_cons (text : List Char) (texts : List (List Char)) (rest : List Char) :
    elementLines (text :: texts) ++ rest =
      '\n' :: ' ' :: ' ' :: ' ' :: ' ' :: (text ++ ',' :: (elementLines texts ++ rest)) := by
  simp [elementLines]

/-- The elements of an array on lines of their own are read back. -/
theorem elements?_lines (h : List.Forall₂ (ReadsAs depth) ds texts) {fuel : Nat}
    (hfuel : (elementLines texts).length ≤ fuel) (rest : List Char) :
    elements? fuel depth (elementLines texts ++ rest) = some (ds, rest) := by
  induction h generalizing fuel with
  | nil =>
    obtain ⟨fuel, rfl⟩ := Nat.exists_eq_succ_of_ne_zero (Nat.ne_zero_of_lt hfuel)
    change elements? (fuel + 1) depth ('\n' :: ']' :: rest) = some ([], rest)
    rw [elements?, skipFiller?_newline rfl]
    rfl
  | @cons d text ds texts hd _ ih =>
    have hlength : (elementLines (text :: texts)).length =
        text.length + (elementLines texts).length + 6 := by
      have hcons := elementLines_cons text texts []
      simp only [List.append_nil] at hcons
      rw [hcons]
      simp only [List.length_cons, List.length_append]
      omega
    obtain ⟨fuel, rfl⟩ : ∃ k, fuel = k + 1 := ⟨fuel - 1, by omega⟩
    have hroom : text.length ≤ fuel := by omega
    have hrest : elements? fuel depth (elementLines texts ++ rest) = some (ds, rest) :=
      ih (by omega)
    have hread := hd.valueWithin?_eq hroom ⟨',', elementLines texts ++ rest, rfl, .inr (.inl rfl)⟩
    obtain ⟨c, tail, rfl, hc⟩ := hd.exists_start
    rw [elementLines_cons, List.cons_append]
    rw [List.cons_append] at hread
    rw [elements?_eq_bind hc (skipFiller?_indented (startsFiller_of_isValueStart hc) _) hread,
      skipFiller?_eq_self rfl]
    change ((elements? fuel depth (elementLines texts ++ rest)).bind fun (ds, rest) =>
      some (d :: ds, rest)) = some (d :: ds, rest)
    rw [hrest]
    rfl

theorem arrayText_eq (first second : List Char) (texts : List (List Char)) :
    arrayText (first :: second :: texts) = '[' :: elementLines (first :: second :: texts) := rfl

theorem valueWithin?_array {fuel : Nat} {text : List Char}
    (h : elements? fuel depth text = some (ds, rest)) :
    valueWithin? (fuel + 1) (depth + 1) ('[' :: text) = some (.array ds, rest) := by
  rw [valueWithin?, h]
  rfl

theorem readsAs_array (h : List.Forall₂ (ReadsAs depth) ds texts) :
    ReadsAs (depth + 1) (.array ds) (arrayText texts) where
  exists_start := by
    cases h with
    | nil => exact ⟨_, _, rfl, rfl⟩
    | cons _ htail => cases htail <;> exact ⟨_, _, rfl, rfl⟩
  valueWithin?_eq {fuel rest} hfuel _ := by
    match h with
    | .nil =>
      obtain ⟨fuel, rfl⟩ : ∃ k, fuel = k + 1 + 1 := ⟨fuel - 2, by simp [arrayText] at hfuel; omega⟩
      exact valueWithin?_array (elements?_nil fuel rest)
    | .cons (b := text) hd .nil =>
      obtain ⟨fuel, rfl⟩ : ∃ k, fuel = k + 1 + 1 := ⟨fuel - 2, by simp [arrayText] at hfuel; omega⟩
      have hroom : text.length ≤ fuel := by
        simp only [arrayText, List.length_cons, List.length_append, List.length_nil] at hfuel
        omega
      have hread := valueWithin?_array (elements?_single hd hroom rest)
      simpa [arrayText] using hread
    | .cons hfirst (.cons hsecond h) =>
      rw [arrayText_eq, List.length_cons] at hfuel
      obtain ⟨fuel, rfl⟩ : ∃ k, fuel = k + 1 := ⟨fuel - 1, by omega⟩
      rw [arrayText_eq]
      exact valueWithin?_array
        (elements?_lines (.cons hfirst (.cons hsecond h)) (Nat.le_of_succ_le_succ hfuel) rest)

/-! ### Everything that stands behind a key -/

/-- The values that stand behind a key: truth values, whole numbers from zero, texts, and arrays of
them nested to a depth. -/
inductive Inline : Nat → Data → Prop where
  /-- A truth value. -/
  | bool (depth : Nat) (b : Bool) : Inline depth (.bool b)
  /-- A whole number from zero. -/
  | integer (depth n : Nat) : Inline depth (.integer n)
  /-- A text. -/
  | string (depth : Nat) (s : String) : Inline depth (.string s)
  /-- An array. -/
  | array {depth : Nat} {ds : List Data} (h : ∀ d ∈ ds, Inline depth d) :
      Inline (depth + 1) (.array ds)

theorem forall₂_of_elementTexts? (h : elementTexts? ds = some texts)
    (hds : ∀ d ∈ ds, ∀ text, valueText? d = some text → ReadsAs depth d text) :
    List.Forall₂ (ReadsAs depth) ds texts := by
  induction ds generalizing texts with
  | nil =>
    cases h
    exact .nil
  | cons d ds ih =>
    rw [List.forall_mem_cons] at hds
    obtain ⟨text, htext, h⟩ := Option.bind_eq_some_iff.1 h
    obtain ⟨more, hmore, h⟩ := Option.bind_eq_some_iff.1 h
    cases h
    exact .cons (hds.1 text htext) (ih hmore hds.2)

/-- **What is written for a value is read as the value.** -/
theorem Inline.readsAs {d : Data} (h : Inline depth d) {text : List Char}
    (htext : valueText? d = some text) : ReadsAs depth d text := by
  induction h generalizing text with
  | bool depth b =>
    cases htext
    exact readsAs_bool depth b
  | integer depth n =>
    rw [valueText?, Option.ite_none_right_eq_some] at htext
    obtain ⟨hle, htext⟩ := htext
    cases htext
    rw [signedDigits_natCast]
    exact readsAs_digits depth hle
  | string depth s =>
    cases htext
    exact readsAs_string depth s
  | array _ ih =>
    rw [valueText?, Option.map_eq_some_iff] at htext
    obtain ⟨texts, htexts, rfl⟩ := htext
    exact readsAs_array (forall₂_of_elementTexts? htexts fun d hd _ => ih d hd)

/-- A value is read back, if a line end, a comma or a bracket follows it. -/
theorem Inline.value?_append {d : Data} (h : Inline nestingLimit d) {text : List Char}
    (htext : valueText? d = some text) (hrest : EndsValue rest) :
    value? (text ++ rest) = some (d, rest) := by
  refine (h.readsAs htext).valueWithin?_eq ?_ hrest
  rw [List.length_append]
  omega

end Toml

end SearchQuery
