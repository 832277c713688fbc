import Mathlib.Data.List.TakeWhile
import SearchQuery.Proofs.Text.Lowercase
import SearchQuery.Token.Lexer

/-!
# The shapes of addresses and identifiers

An address and an identifier can be told from their own characters: the readers yield texts of the
shapes below, and a text of such a shape is read back whole wherever nothing follows that goes on
with it.

## An opening fixes its length

The reader of addresses looks past the opening it is at, for the `s` of a scheme and for the
slashes. `Url.Opening` lists the openings themselves, so that what stands behind one is seen not to
matter.

## Main definitions

* `Url.Opening` — how an address begins
* `IsUrl` — an address
* `IsDoi` — an identifier in lowercase

## Main results

* `isUrl_of_readUrl?`, `isDoi_of_readDoi?` — the readers yield these shapes
* `readUrl?_of_isUrl`, `readDoi?_of_isDoi` — the shapes are read back
-/

namespace SearchQuery

open Text

/-! ### The front of a text -/

/-- What follows does not go on with characters that satisfy `p`. -/
def EndsAt (p : Char → Bool) (rest : List Char) : Prop := ∀ c ∈ rest.head?, p c = false

@[simp] theorem endsAt_cons {p : Char → Bool} {c : Char} {rest : List Char} :
    EndsAt p (c :: rest) ↔ p c = false := by simp [EndsAt]

theorem endsAt_nil {p : Char → Bool} : EndsAt p [] := by simp [EndsAt]

theorem takeWhile_append_eq {p : Char → Bool} {cs rest : List Char} (h : ∀ c ∈ cs, p c = true)
    (hrest : EndsAt p rest) : (cs ++ rest).takeWhile p = cs := by
  rw [List.takeWhile_append_of_pos h]
  cases rest with
  | nil => simp
  | cons c rest => rw [List.takeWhile_cons_of_neg (by simp [endsAt_cons.1 hrest]), List.append_nil]

theorem endsAt_dropWhile (p : Char → Bool) (cs : List Char) : EndsAt p (cs.dropWhile p) := by
  intro c hc
  have hnot := List.head?_dropWhile_not p cs
  rw [Option.mem_def.1 hc] at hnot
  simpa using hnot

theorem isBlank_of_isAlphanum {c : Char} (h : c.isAlphanum = true) : isBlank c = false :=
  forall_ascii (P := fun c => c.isAlphanum = true → isBlank c = false) (by decide)
    (isAscii_of_isAlphanum h) h

/-- No blank is a digit. The ranges of the two tables are apart. -/
theorem isDecimalDigit_of_isBlank {c : Char} (h : isBlank c = true) : isDecimalDigit c = false := by
  by_cases hascii : isAscii c = true
  · exact forall_ascii (P := fun c => isBlank c = true → isDecimalDigit c = false) (by decide)
      hascii h
  · have hapart : ∀ r ∈ decimalDigitRanges, ∀ b ∈ blankRanges, r.2 < b.1 ∨ b.2 < r.1 := by decide
    obtain ⟨b, hb, hblow, hbhigh⟩ := inRanges_eq_true_iff.1 h
    rw [isDecimalDigit, if_neg hascii, Bool.eq_false_iff, ne_eq, inRanges_eq_true_iff]
    rintro ⟨r, hr, hrlow, hrhigh⟩
    rcases hapart r hr b hb with hlt | hlt <;> omega

/-! ### Addresses -/

namespace Url

/-- The openings of addresses. -/
inductive Opening : List Char → Prop where
  /-- A scheme. -/
  | plain {h t u p : Char} (hh : isLetter 'h' h = true) (ht : isLetter 't' t = true)
      (hu : isLetter 't' u = true) (hp : isLetter 'p' p = true) :
      Opening [h, t, u, p, ':', '/', '/']
  /-- A scheme with one more letter. -/
  | secure {h t u p s : Char} (hh : isLetter 'h' h = true) (ht : isLetter 't' t = true)
      (hu : isLetter 't' u = true) (hp : isLetter 'p' p = true) (hs : isLetterS s = true) :
      Opening [h, t, u, p, s, ':', '/', '/']
  /-- A host name without a scheme. -/
  | host {a b c : Char} (ha : isLetter 'w' a = true) (hb : isLetter 'w' b = true)
      (hc : isLetter 'w' c = true) : Opening [a, b, c, '.']

theorem separatorLength?_eq_some {cs : List Char} {n : Nat} (h : separatorLength? cs = some n) :
    n = 3 ∧ ∃ rest, cs = ':' :: '/' :: '/' :: rest := by
  rw [separatorLength?.eq_def] at h
  split at h
  · cases h
    exact ⟨rfl, _, rfl⟩
  · cases h

theorem isAlphanum_of_isLetter {l c : Char} (hl : l ∈ ['h', 't', 'p', 'w'])
    (h : isLetter l c = true) : c.isAlphanum = true := by
  rw [isLetter, beq_iff_eq] at h
  have hletters : ∀ l ∈ ['h', 't', 'p', 'w'], isAscii l = true :=
    forall_mem_of_all (by decide)
  have hascii : isAscii c = true := isAscii_of_toLower (h ▸ hletters l hl)
  exact forall_ascii (P := fun c => c.toLower ∈ ['h', 't', 'p', 'w'] → c.isAlphanum = true)
    (by decide) hascii (h ▸ hl)

/-- The letter that begins a scheme does not begin a host name. -/
theorem not_isLetter_h {c : Char} (h : isLetter 'w' c = true) : isLetter 'h' c = false := by
  rw [isLetter, beq_iff_eq] at h
  rw [isLetter, h]
  rfl

/-- The reader finds the openings at the front of a text. -/
theorem openingLength?_eq_some_iff {cs : List Char} {n : Nat} :
    openingLength? cs = some n ↔ ∃ o rest, cs = o ++ rest ∧ Opening o ∧ o.length = n := by
  constructor
  · intro h
    rw [openingLength?.eq_def] at h
    split at h
    case h_2 => cases h
    rename_i a b c d cs
    split at h
    · rename_i hscheme
      simp only [Bool.and_eq_true] at hscheme
      obtain ⟨⟨⟨ha, hb⟩, hc⟩, hd⟩ := hscheme
      split at h
      case h_2 => cases h
      rename_i e es
      split at h
      · rename_i hs
        obtain ⟨k, hk, rfl⟩ := Option.map_eq_some_iff.1 h
        obtain ⟨rfl, rest, rfl⟩ := separatorLength?_eq_some hk
        exact ⟨_, rest, rfl, .secure ha hb hc hd hs, rfl⟩
      · obtain ⟨k, hk, rfl⟩ := Option.map_eq_some_iff.1 h
        obtain ⟨rfl, rest, hrest⟩ := separatorLength?_eq_some hk
        rw [hrest]
        exact ⟨_, rest, rfl, .plain ha hb hc hd, rfl⟩
    split at h
    · rename_i hhost
      simp only [Bool.and_eq_true, beq_iff_eq] at hhost
      obtain ⟨⟨⟨ha, hb⟩, hc⟩, rfl⟩ := hhost
      cases h
      exact ⟨_, cs, rfl, .host ha hb hc, rfl⟩
    · cases h
  · rintro ⟨o, rest, rfl, ho, rfl⟩
    cases ho with
    | plain hh ht hu hp => simp [openingLength?, separatorLength?, hh, ht, hu, hp, isLetterS]
    | secure hh ht hu hp hs => simp [openingLength?, separatorLength?, hh, ht, hu, hp, hs]
    | host ha hb hc => simp [openingLength?, ha, hb, hc, not_isLetter_h ha]

/-- An opening begins with a letter of ASCII. -/
theorem Opening.exists_cons {o : List Char} (h : Opening o) :
    ∃ c cs, o = c :: cs ∧ c.isAlphanum = true := by
  cases h with
  | plain hh | secure hh => exact ⟨_, _, rfl, isAlphanum_of_isLetter (by decide) hh⟩
  | host hw => exact ⟨_, _, rfl, isAlphanum_of_isLetter (by decide) hw⟩

theorem isBodyChar_of_isAlphanum {c : Char} (h : c.isAlphanum = true) :
    isBodyChar c = true :=
  forall_ascii (P := fun c => c.isAlphanum = true → isBodyChar c = true)
    (by decide) (isAscii_of_isAlphanum h) h

/-- The opening of an address goes on as an address does. -/
theorem Opening.isBodyChar {o : List Char} (h : Opening o) :
    ∀ c ∈ o, Url.isBodyChar c = true := by
  have hletter : ∀ l ∈ ['h', 't', 'p', 'w'], ∀ c, isLetter l c = true →
      Url.isBodyChar c = true := fun l hl c hc =>
    isBodyChar_of_isAlphanum (isAlphanum_of_isLetter hl hc)
  have hmarks : ∀ c ∈ [':', '/', '.', 's', 'S', 'ſ'], Url.isBodyChar c = true :=
    forall_mem_of_all (by decide)
  cases h with
  | plain hh ht hu hp =>
    simp only [List.forall_mem_cons]
    exact ⟨hletter 'h' (by decide) _ hh, hletter 't' (by decide) _ ht,
      hletter 't' (by decide) _ hu, hletter 'p' (by decide) _ hp, hmarks _ (by decide),
      hmarks _ (by decide), hmarks _ (by decide), by simp⟩
  | secure hh ht hu hp hs =>
    simp only [List.forall_mem_cons]
    rw [isLetterS, Bool.or_eq_true, Bool.or_eq_true, beq_iff_eq, beq_iff_eq, beq_iff_eq] at hs
    refine ⟨hletter 'h' (by decide) _ hh, hletter 't' (by decide) _ ht,
      hletter 't' (by decide) _ hu, hletter 'p' (by decide) _ hp, ?_, hmarks _ (by decide),
      hmarks _ (by decide), hmarks _ (by decide), by simp⟩
    rcases hs with (rfl | rfl) | rfl <;> exact hmarks _ (by decide)
  | host ha hb hc =>
    simp only [List.forall_mem_cons]
    exact ⟨hletter 'w' (by decide) _ ha, hletter 'w' (by decide) _ hb,
      hletter 'w' (by decide) _ hc, hmarks _ (by decide), by simp⟩

end Url

/-- An address: an opening and something after it. -/
def IsUrl (cs : List Char) : Prop :=
  ∃ o body, cs = o ++ body ∧ Url.Opening o ∧ body ≠ [] ∧ ∀ c ∈ body, Url.isBodyChar c = true

theorem Url.length?_eq_some_iff {cs : List Char} {n : Nat} :
    Url.length? cs = some n ↔ ∃ o rest, cs = o ++ rest ∧ Url.Opening o ∧
      rest.takeWhile Url.isBodyChar ≠ [] ∧
        n = o.length + (rest.takeWhile Url.isBodyChar).length := by
  rw [Url.length?, Option.bind_eq_some_iff]
  constructor
  · rintro ⟨k, hk, h⟩
    obtain ⟨o, rest, rfl, ho, rfl⟩ := Url.openingLength?_eq_some_iff.1 hk
    rw [List.drop_left] at h
    dsimp only at h
    split at h
    · cases h
    · rename_i hne
      cases h
      exact ⟨o, rest, rfl, ho, by simpa using hne, rfl⟩
  · rintro ⟨o, rest, rfl, ho, hne, rfl⟩
    refine ⟨o.length, Url.openingLength?_eq_some_iff.2 ⟨o, rest, rfl, ho, rfl⟩, ?_⟩
    rw [List.drop_left]
    dsimp only
    rw [if_neg (by simpa using hne)]

theorem isUrl_of_readUrl? {c : Char} {cs : List Char} {l : Lexeme} {n : Nat}
    (h : readUrl? c cs = some (l, n)) : ∃ v, l = .url v ∧ IsUrl v.toList := by
  obtain ⟨k, hk, h⟩ := Option.map_eq_some_iff.1 h
  obtain ⟨o, rest, hcs, ho, hne, rfl⟩ := Url.length?_eq_some_iff.1 hk
  cases h
  refine ⟨_, rfl, o, rest.takeWhile Url.isBodyChar, ?_, ho, hne, fun d hd => ?_⟩
  · rw [String.toList_ofList, hcs, List.take_length_add_append]
    exact congrArg _ (List.prefix_iff_eq_take.1 (List.takeWhile_prefix _)).symm
  · exact List.mem_takeWhile_imp hd

/-- What the reader takes for an address holds no blank, no bracket and no quote. -/
theorem isBodyChar_of_readUrl? {c : Char} {cs : List Char} {l : Lexeme} {n : Nat}
    (h : readUrl? c cs = some (l, n)) : ∀ d ∈ c :: cs.take n, Url.isBodyChar d = true := by
  intro d hd
  obtain ⟨k, hk, h⟩ := Option.map_eq_some_iff.1 h
  obtain ⟨o, rest, hcs, ho, -, rfl⟩ := Url.length?_eq_some_iff.1 hk
  cases h
  have hmem : d ∈ (o ++ rest).take (o.length + (rest.takeWhile Url.isBodyChar).length) := by
    obtain ⟨a, os, rfl, -⟩ := ho.exists_cons
    rw [← hcs, List.length_cons, Nat.add_right_comm, List.take_succ_cons]
    rwa [List.length_cons, Nat.add_right_comm] at hd
  rw [List.take_length_add_append, ← List.prefix_iff_eq_take.1 (List.takeWhile_prefix _),
    List.mem_append] at hmem
  rcases hmem with hopening | hbody
  · exact ho.isBodyChar d hopening
  · exact List.mem_takeWhile_imp hbody

/-- An address is read back. -/
theorem readUrl?_of_isUrl {c : Char} {cs rest : List Char} (h : IsUrl (c :: cs))
    (hrest : EndsAt Url.isBodyChar rest) :
    readUrl? c (cs ++ rest) = some (.url (String.ofList (c :: cs)), cs.length) := by
  obtain ⟨o, body, hcs, ho, hne, hbody⟩ := h
  have hlength : Url.length? (c :: cs ++ rest) = some (c :: cs).length := by
    refine Url.length?_eq_some_iff.2 ⟨o, body ++ rest, ?_, ho, ?_, ?_⟩
    · rw [hcs, List.append_assoc]
    · rwa [takeWhile_append_eq hbody hrest]
    · rw [takeWhile_append_eq hbody hrest, hcs, List.length_append]
  rw [readUrl?, ← List.cons_append, hlength, Option.map_some, List.take_left]
  rfl

/-- Where no address begins. -/
theorem readUrl?_eq_none {c : Char} (hh : Url.isLetter 'h' c = false)
    (hw : Url.isLetter 'w' c = false) (cs : List Char) : readUrl? c cs = none := by
  rw [readUrl?, Option.map_eq_none_iff, Option.eq_none_iff_forall_ne_some]
  intro n hn
  obtain ⟨o, rest, hcs, ho, -⟩ := Url.length?_eq_some_iff.1 hn
  cases ho with
  | plain hh' | secure hh' =>
    cases hcs
    rw [hh'] at hh
    cases hh
  | host hw' =>
    cases hcs
    rw [hw'] at hw
    cases hw

/-! ### Identifiers -/

/-- An identifier in lowercase: the registrant's part, a slash and a name. -/
structure IsDoi (cs : List Char) : Prop where
  /-- Its parts. -/
  parts : ∃ ds name last, cs = '1' :: '0' :: '.' :: ds ++ '/' :: (name ++ [last]) ∧
    4 ≤ ds.length ∧ ds.length ≤ 9 ∧ (∀ c ∈ ds, isDecimalDigit c = true) ∧
    (∀ c ∈ name ++ [last], Doi.isNameChar c = true) ∧ Doi.isNameEnd last = true
  /-- Lowercasing keeps its characters. -/
  lowered : ∀ c ∈ cs, IsLowered c

namespace Doi

theorem registrant?_eq_some_iff {cs registrant : List Char} :
    registrant? cs = some registrant ↔ ∃ ds rest, cs = '1' :: '0' :: '.' :: (ds ++ rest) ∧
      registrant = '1' :: '0' :: '.' :: ds ∧ 4 ≤ ds.length ∧ ds.length ≤ 9 ∧
      (∀ c ∈ ds, isDecimalDigit c = true) ∧ EndsAt isDecimalDigit rest := by
  constructor
  · intro h
    rw [registrant?.eq_def] at h
    split at h
    case h_2 => cases h
    rename_i cs
    dsimp only at h
    rw [Option.ite_none_right_eq_some, Bool.and_eq_true, decide_eq_true_eq, decide_eq_true_eq] at h
    obtain ⟨⟨hlow, hhigh⟩, heq⟩ := h
    cases heq
    refine ⟨cs.takeWhile isDecimalDigit, cs.dropWhile isDecimalDigit, ?_, rfl, hlow, hhigh,
      fun c hc => List.mem_takeWhile_imp hc, ?_⟩
    · rw [List.takeWhile_append_dropWhile]
    · exact endsAt_dropWhile _ _
  · rintro ⟨ds, rest, rfl, rfl, hlow, hhigh, hds, hrest⟩
    rw [registrant?, takeWhile_append_eq hds hrest]
    simp [hlow, hhigh]

theorem isAscii_of_isNameChar {c : Char} (h : isNameChar c = true) : isAscii c = true := by
  rw [isNameChar, Bool.or_eq_true] at h
  rcases h with halnum | hmark
  · exact isAscii_of_isAlphanum halnum
  · have hmem := List.contains_iff_mem.1 hmark
    simp only [List.mem_cons, List.not_mem_nil, or_false] at hmem
    rcases hmem with rfl | rfl | rfl | rfl | rfl | rfl <;> decide

/-- What the lowercase of a name's character is. -/
theorem lowerChar_of_isNameChar {c : Char} (h : isNameChar c = true) :
    lowerChar c = [c.toLower] ∧ isNameChar c.toLower = true ∧
      (isNameEnd c = true → isNameEnd c.toLower = true) :=
  forall_ascii (P := fun c => isNameChar c = true → lowerChar c = [c.toLower] ∧
    isNameChar c.toLower = true ∧ (isNameEnd c = true → isNameEnd c.toLower = true))
    (by decide) (isAscii_of_isNameChar h) h

theorem name_eq (cs : List Char) (h : name cs ≠ []) : ∃ front last, name cs = front ++ [last] ∧
    (∀ c ∈ front ++ [last], isNameChar c = true) ∧ isNameEnd last = true := by
  have hchars : ∀ c ∈ name cs, isNameChar c = true := by
    intro c hc
    have hmem := (List.dropWhile_suffix _).mem (List.mem_reverse.1 hc)
    exact List.mem_takeWhile_imp (List.mem_reverse.1 hmem)
  have hend : EndsAt (!isNameEnd ·) (name cs).reverse := by
    rw [name, List.reverse_reverse]
    exact endsAt_dropWhile _ _
  obtain ⟨front, last, heq⟩ := List.eq_nil_or_concat _ |>.resolve_left h
  rw [heq] at hchars hend ⊢
  rw [List.concat_eq_append] at *
  rw [List.reverse_append, List.reverse_singleton, List.singleton_append, endsAt_cons] at hend
  exact ⟨front, last, rfl, hchars, by simpa using hend⟩

theorem name_append {front rest : List Char} {last : Char}
    (h : ∀ c ∈ front ++ [last], isNameChar c = true) (hlast : isNameEnd last = true)
    (hrest : EndsAt isNameChar rest) : name (front ++ [last] ++ rest) = front ++ [last] := by
  rw [name, takeWhile_append_eq h hrest, List.reverse_append, List.reverse_singleton,
    List.singleton_append, List.dropWhile_cons_of_neg (by simp [hlast]), List.reverse_cons,
    List.reverse_reverse]

theorem split?_eq_some {cs registrant found : List Char} {n : Nat}
    (h : split? cs = some (registrant, found, n)) :
    registrant? cs = some registrant ∧ found ≠ [] ∧ ∃ rest, found = name rest := by
  rw [split?, Option.bind_eq_some_iff] at h
  obtain ⟨r, hr, h⟩ := h
  dsimp only at h
  split at h
  · split at h
    · cases h
    · rename_i hne
      cases h
      exact ⟨hr, by simpa using hne, _, rfl⟩
  · cases h

theorem exists_of_blankLength (cs : List Char) : ∃ gap rest, cs = gap ++ rest ∧
    gap.length = blankLength cs ∧ ∀ c ∈ gap, isBlank c = true := by
  cases cs with
  | nil => exact ⟨[], [], rfl, rfl, by simp⟩
  | cons c cs =>
    rw [blankLength]
    split
    · rename_i hblank
      exact ⟨[c], cs, rfl, rfl, by simpa using hblank⟩
    · exact ⟨[], c :: cs, rfl, rfl, by simp⟩

theorem name_prefix (cs : List Char) : name cs <+: cs := by
  refine List.IsPrefix.trans ?_ (List.takeWhile_prefix isNameChar)
  rw [name, ← List.reverse_suffix, List.reverse_reverse]
  exact List.dropWhile_suffix _

/-- The parts of an identifier stand at the front of the text, with at most a blank around the
slash. -/
theorem take_of_split? {cs registrant found : List Char} {n : Nat}
    (h : split? cs = some (registrant, found, n)) : ∃ before after,
      cs.take n = registrant ++ before ++ '/' :: after ++ found ∧
        (∀ c ∈ before, isBlank c = true) ∧ ∀ c ∈ after, isBlank c = true := by
  rw [split?, Option.bind_eq_some_iff] at h
  obtain ⟨r, hr, h⟩ := h
  obtain ⟨ds, rest, hcs, rfl, -⟩ := registrant?_eq_some_iff.1 hr
  have hcs : cs = ('1' :: '0' :: '.' :: ds) ++ rest := by rw [hcs]; rfl
  obtain ⟨before, rest', hbefore, hlength, hblank⟩ := exists_of_blankLength rest
  dsimp only at h
  rw [hcs, List.drop_left, ← List.drop_drop, List.drop_left, ← hlength, hbefore,
    List.drop_left] at h
  split at h
  case h_2 => cases h
  rename_i rest2
  obtain ⟨after, rest3, hafter, hlength', hblank'⟩ := exists_of_blankLength rest2
  rw [← hlength', hafter, List.drop_left] at h
  split at h
  · cases h
  cases h
  obtain ⟨tail, htail⟩ := name_prefix rest3
  refine ⟨before, after, ?_, hblank, hblank'⟩
  generalize name rest3 = found at htail
  rw [hcs, hbefore, hafter, ← htail]
  have hsplit : '1' :: '0' :: '.' :: ds ++ (before ++ '/' :: (after ++ (found ++ tail))) =
      ('1' :: '0' :: '.' :: ds ++ before ++ '/' :: after ++ found) ++ tail := by simp
  rw [hsplit]
  refine List.take_left' ?_
  simp only [List.length_append, List.length_cons]
  omega

/-- What may stand on either side of the slash. -/
structure IsGap (gap : List Char) : Prop where
  /-- It is one character or none. -/
  length_le : gap.length ≤ 1
  /-- It is blank. -/
  isBlank : ∀ c ∈ gap, isBlank c = true

theorem isGap_nil : IsGap [] := ⟨Nat.zero_le 1, by simp⟩

theorem blankLength_append {gap rest : List Char} (hgap : IsGap gap)
    (hrest : EndsAt Text.isBlank rest) : blankLength (gap ++ rest) = gap.length := by
  match gap, hgap with
  | [], _ =>
    cases rest with
    | nil => rfl
    | cons c rest => rw [List.nil_append, blankLength, endsAt_cons.1 hrest]; rfl
  | [c], hgap =>
    rw [List.singleton_append, blankLength, if_pos (hgap.isBlank c List.mem_cons_self)]
    rfl
  | _ :: _ :: _, hgap => exact absurd hgap.length_le (by simp)

theorem IsGap.endsAt {gap rest : List Char} {p : Char → Bool} (hgap : IsGap gap)
    (hblank : ∀ c, Text.isBlank c = true → p c = false) (hrest : EndsAt p rest) :
    EndsAt p (gap ++ rest) := by
  cases gap with
  | nil => exact hrest
  | cons c gap => exact endsAt_cons.2 (hblank c (hgap.isBlank c List.mem_cons_self))

/-- The parts are found at the front of a text, with a gap on each side of the slash. -/
theorem split?_append {ds before after front rest : List Char} {last : Char}
    (hlow : 4 ≤ ds.length) (hhigh : ds.length ≤ 9) (hds : ∀ c ∈ ds, isDecimalDigit c = true)
    (hbefore : IsGap before) (hafter : IsGap after)
    (hname : ∀ c ∈ front ++ [last], isNameChar c = true) (hlast : isNameEnd last = true)
    (hrest : EndsAt isNameChar rest) :
    split? ('1' :: '0' :: '.' :: ds ++ before ++ '/' :: (after ++ (front ++ [last])) ++ rest) =
      some ('1' :: '0' :: '.' :: ds, front ++ [last],
        ('1' :: '0' :: '.' :: ds ++ before ++ '/' :: (after ++ (front ++ [last]))).length) := by
  obtain ⟨c, cs, hc⟩ := List.exists_cons_of_ne_nil (List.concat_ne_nil last front)
  have hfirst : isNameChar c = true := hname c (by rw [hc]; exact List.mem_cons_self)
  have hnotBlank : EndsAt Text.isBlank (front ++ [last] ++ rest) := by
    rw [hc]
    exact endsAt_cons.2 (forall_ascii (P := fun c => isNameChar c = true → Text.isBlank c = false)
      (by decide) (isAscii_of_isNameChar hfirst) hfirst)
  have hregistrant : registrant? ('1' :: '0' :: '.' :: ds ++
      (before ++ '/' :: (after ++ (front ++ [last] ++ rest)))) = some ('1' :: '0' :: '.' :: ds) :=
    registrant?_eq_some_iff.2 ⟨ds, _, rfl, rfl, hlow, hhigh, hds,
      hbefore.endsAt (fun _ => isDecimalDigit_of_isBlank) (endsAt_cons.2 (by decide))⟩
  have hslash : blankLength (before ++ '/' :: (after ++ (front ++ [last] ++ rest))) =
      before.length := blankLength_append hbefore (endsAt_cons.2 (by decide))
  have htext : '1' :: '0' :: '.' :: ds ++ before ++ '/' :: (after ++ (front ++ [last])) ++ rest =
      '1' :: '0' :: '.' :: ds ++ (before ++ '/' :: (after ++ (front ++ [last] ++ rest))) := by
    simp
  rw [htext]
  simp only [split?, hregistrant, Option.bind_some, List.drop_left, ← List.drop_drop, hslash,
    blankLength_append hafter hnotBlank, name_append hname hlast hrest]
  rw [if_neg (by simp)]
  simp only [List.length_append, List.length_cons]
  rw [Option.some_inj, Prod.mk.injEq, Prod.mk.injEq]
  exact ⟨rfl, rfl, by omega⟩

end Doi

theorem Doi.flatMap_lowerChar {cs : List Char} (h : ∀ c ∈ cs, isNameChar c = true) :
    cs.flatMap lowerChar = cs.map Char.toLower := by
  induction cs with
  | nil => rfl
  | cons c cs ih =>
    rw [List.forall_mem_cons] at h
    rw [List.flatMap_cons, (lowerChar_of_isNameChar h.1).1, ih h.2, List.map_cons,
      List.singleton_append]

/-- Only the name changes when an identifier is lowercased. -/
theorem Doi.lowercase_join {ds found : List Char} (hds : ∀ c ∈ ds, isDecimalDigit c = true)
    (hfound : ∀ c ∈ found, isNameChar c = true) :
    lowercase ('1' :: '0' :: '.' :: ds ++ '/' :: found) =
      '1' :: '0' :: '.' :: ds ++ '/' :: found.map Char.toLower := by
  have hsigma : 'Σ' ∉ '1' :: '0' :: '.' :: ds ++ '/' :: found := by
    intro hmem
    rcases List.mem_append.1 hmem with hregistrant | hrest
    · simp only [List.mem_cons, Char.reduceEq, false_or] at hregistrant
      exact (isLowered_of_isDecimalDigit (hds _ hregistrant)).ne_sigma rfl
    · simp only [List.mem_cons, Char.reduceEq, false_or] at hrest
      exact absurd (hfound _ hrest) (by decide)
  have hdigits : ds.flatMap lowerChar = ds :=
    flatMap_lowerChar_eq_self fun c hc => isLowered_of_isDecimalDigit (hds c hc)
  have hmarks : lowerChar '1' = ['1'] ∧ lowerChar '0' = ['0'] ∧ lowerChar '.' = ['.'] ∧
      lowerChar '/' = ['/'] := by decide
  obtain ⟨h1, h0, hpoint, hslash⟩ := hmarks
  rw [lowercase, lowercaseAfter_eq_flatMap hsigma]
  simp only [List.cons_append, List.flatMap_cons, List.flatMap_append, h1, h0, hpoint, hslash,
    hdigits, flatMap_lowerChar hfound, List.nil_append]

theorem isDoi_lowercase {ds front : List Char} {last : Char} (hlow : 4 ≤ ds.length)
    (hhigh : ds.length ≤ 9) (hds : ∀ c ∈ ds, isDecimalDigit c = true)
    (hname : ∀ c ∈ front ++ [last], Doi.isNameChar c = true) (hlast : Doi.isNameEnd last = true) :
    IsDoi (lowercase ('1' :: '0' :: '.' :: ds ++ '/' :: (front ++ [last]))) := by
  refine ⟨⟨ds, front.map Char.toLower, last.toLower, ?_, hlow, hhigh, hds, ?_, ?_⟩,
    fun c hc => isLowered_of_mem_lowercaseAfter hc⟩
  · rw [Doi.lowercase_join hds hname, List.map_append, List.map_singleton]
  · rw [← List.map_singleton, ← List.map_append, List.forall_mem_map]
    exact fun c hc => (Doi.lowerChar_of_isNameChar (hname c hc)).2.1
  · exact (Doi.lowerChar_of_isNameChar (hname last (by simp))).2.2 hlast

theorem isDoi_of_readDoi? {c : Char} {cs : List Char} {l : Lexeme} {n : Nat}
    (h : readDoi? c cs = some (l, n)) : ∃ v, l = .doi v ∧ IsDoi v.toList := by
  obtain ⟨⟨registrant, found, k⟩, hsplit, h⟩ := Option.bind_eq_some_iff.1 h
  obtain ⟨hregistrant, hne, rest, rfl⟩ := Doi.split?_eq_some hsplit
  obtain ⟨ds, -, -, rfl, hlow, hhigh, hds, -⟩ := Doi.registrant?_eq_some_iff.1 hregistrant
  obtain ⟨front, last, hname, hchars, hlast⟩ := Doi.name_eq rest hne
  have hshape := isDoi_lowercase hlow hhigh hds hchars hlast
  rw [← hname, ← String.toList_ofList (l := lowercase _)] at hshape
  dsimp only at h
  split at h
  · split at h
    · cases h
    · cases h
      exact ⟨_, rfl, hshape⟩
  · cases h
    exact ⟨_, rfl, hshape⟩

/-- What the reader takes for an identifier. -/
theorem take_of_readDoi? {c : Char} {cs : List Char} {l : Lexeme} {n : Nat}
    (h : readDoi? c cs = some (l, n)) : ∃ ds before after found : List Char,
      c :: cs.take n = '1' :: '0' :: '.' :: ds ++ before ++ '/' :: after ++ found ∧
        (∀ d ∈ ds, isDecimalDigit d = true) ∧ (∀ d ∈ before, isBlank d = true) ∧
        (∀ d ∈ after, isBlank d = true) ∧ ∀ d ∈ found, Doi.isNameChar d = true := by
  obtain ⟨⟨registrant, found, k⟩, hsplit, h⟩ := Option.bind_eq_some_iff.1 h
  have hn : n = k - 1 := by
    dsimp only at h
    split at h
    · split at h <;> cases h
      rfl
    · cases h
      rfl
  obtain ⟨hregistrant, hne, rest, rfl⟩ := Doi.split?_eq_some hsplit
  obtain ⟨ds, -, -, rfl, -, -, hds, -⟩ := Doi.registrant?_eq_some_iff.1 hregistrant
  obtain ⟨before, after, htake, hbefore, hafter⟩ := Doi.take_of_split? hsplit
  obtain ⟨front, last, hname, hchars, -⟩ := Doi.name_eq rest hne
  have hk : k = n + 1 := by
    cases k with
    | zero => cases htake
    | succ k => rw [hn]; rfl
  rw [hk, List.take_succ_cons] at htake
  exact ⟨ds, before, after, Doi.name rest, htake, hds, hbefore, hafter, hname ▸ hchars⟩

/-- An identifier is read with a gap on each side of its slash, whatever its case. -/
theorem readDoi?_append {ds before after front rest : List Char} {last : Char}
    (hlow : 4 ≤ ds.length) (hhigh : ds.length ≤ 9) (hds : ∀ c ∈ ds, isDecimalDigit c = true)
    (hbefore : Doi.IsGap before) (hafter : Doi.IsGap after)
    (hname : ∀ c ∈ front ++ [last], Doi.isNameChar c = true) (hlast : Doi.isNameEnd last = true)
    (hrest : EndsAt Doi.isNameChar rest) (hword : EndsAt isTermChar rest) {c : Char}
    {cs : List Char}
    (hcs : c :: cs = '1' :: '0' :: '.' :: ds ++ before ++ '/' :: (after ++ (front ++ [last]))) :
    readDoi? c (cs ++ rest) =
      some (.doi (Doi.join ('1' :: '0' :: '.' :: ds) (front ++ [last])), cs.length) := by
  have hsplit := Doi.split?_append hlow hhigh hds hbefore hafter hname hlast hrest
  rw [← hcs, List.cons_append] at hsplit
  rw [readDoi?, hsplit, Option.bind_some]
  dsimp only
  rw [← List.cons_append, List.drop_left]
  cases rest with
  | nil => rfl
  | cons d rest =>
    dsimp only
    rw [if_neg (by simp [endsAt_cons.1 hword])]
    rfl

/-- An identifier is read back. -/
theorem readDoi?_of_isDoi {c : Char} {cs rest : List Char} (h : IsDoi (c :: cs))
    (hname : EndsAt Doi.isNameChar rest) (hword : EndsAt isTermChar rest) :
    readDoi? c (cs ++ rest) = some (.doi (String.ofList (c :: cs)), cs.length) := by
  obtain ⟨⟨ds, front, last, hcs, hlow, hhigh, hds, hchars, hlast⟩, hlowered⟩ := h
  rw [readDoi?_append hlow hhigh hds Doi.isGap_nil Doi.isGap_nil hchars hlast hname hword
    (by rw [hcs, List.append_nil, List.nil_append]), Doi.join, ← hcs, lowercase_eq_self hlowered]

/-- Where no identifier begins. -/
theorem Doi.split?_eq_none {c : Char} (h : c ≠ '1') (cs : List Char) :
    Doi.split? (c :: cs) = none := by
  rw [Option.eq_none_iff_forall_ne_some]
  rintro ⟨registrant, found, n⟩ hsplit
  obtain ⟨hregistrant, -⟩ := Doi.split?_eq_some hsplit
  obtain ⟨ds, rest, hcs, -⟩ := Doi.registrant?_eq_some_iff.1 hregistrant
  cases hcs
  exact absurd rfl h

theorem readDoi?_eq_none {c : Char} (h : c ≠ '1') (cs : List Char) : readDoi? c cs = none := by
  rw [readDoi?, Doi.split?_eq_none h, Option.bind_none]

end SearchQuery
