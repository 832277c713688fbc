import SearchQuery.Proofs.Token.Reading

/-!
# Tokens tile a text

Between the tokens of a text stand only characters that begin none, and each token is the part of
the text that begins at its position. The cursor moves over whole characters, so positions are
counted in bytes and still fall between two characters.

## What is passed over

`IsNoise` says of a character and its two neighbours that no token begins there. Signs need
something after them, a colon needs both sides, and a backslash needs a character to hide. Commas,
slashes and quotes are passed over where they open nothing that is closed, so nothing is asked of
their neighbours.

## Main definitions

* `IsNoise` — a character that is passed over between two neighbours
* `Tiles` — a text cut into tokens and such characters

## Main results

* `tiles_tokensFrom` — the reader cuts the text into tokens and noise
* `tokenize_tiles` — what that says about positions, slices and the characters between tokens
-/

namespace SearchQuery

open Text

/-! ### Bytes -/

theorem byteLength_append (cs ds : List Char) :
    byteLength (cs ++ ds) = byteLength cs + byteLength ds := by
  induction cs with
  | nil => rw [List.nil_append, byteLength, Nat.zero_add]
  | cons c cs ih => rw [List.cons_append, byteLength, byteLength, ih, Nat.add_assoc]

theorem byteLength_pos {cs : List Char} (h : cs ≠ []) : 0 < byteLength cs := by
  cases cs with
  | nil => exact absurd rfl h
  | cons c cs => exact Nat.add_pos_left c.utf8Size_pos _

/-- The bytes of a text are those of its characters. -/
theorem byteLength_toList (s : String) : byteLength s.toList = s.utf8ByteSize := by
  obtain ⟨cs, rfl⟩ : ∃ cs, s = String.ofList cs := ⟨s.toList, String.ofList_toList.symm⟩
  rw [String.toList_ofList]
  induction cs with
  | nil => rfl
  | cons c cs ih =>
    rw [String.ofList_cons, String.utf8ByteSize_append, String.utf8ByteSize_singleton, byteLength,
      ih]

/-! ### Noise -/

/-- A blank or the edge of the text. -/
def IsGap (neighbour : Option Char) : Prop := ∀ c ∈ neighbour, isBlank c = true

/-- No token begins at the character, which stands between the two neighbours. -/
inductive IsNoise (prev : Option Char) : Char → Option Char → Prop where
  /-- A blank. -/
  | blank {c : Char} {next : Option Char} (h : isBlank c = true) : IsNoise prev c next
  /-- A quote. -/
  | quote {c : Char} {next : Option Char} (h : isQuote c = true) : IsNoise prev c next
  /-- A comma. -/
  | comma {next : Option Char} : IsNoise prev ',' next
  /-- A slash. -/
  | slash {next : Option Char} : IsNoise prev '/' next
  /-- A sign that nothing follows. -/
  | sign {c : Char} {next : Option Char} (hc : c = '+' ∨ c = '-') (h : IsGap next) :
      IsNoise prev c next
  /-- A colon that lacks a side. -/
  | colon {next : Option Char} (h : IsGap prev ∨ IsGap next) : IsNoise prev ':' next
  /-- A backslash at the end. -/
  | backslash : IsNoise prev '\\' none

theorem isGap_of_touches {cs : List Char} (h : touches cs = false) : IsGap cs.head? := by
  intro c hc
  cases cs with
  | nil => cases hc
  | cons d cs =>
    cases hc
    simpa [touches] using h

theorem isGap_of_touches_toList {prev : Option Char} (h : touches prev.toList = false) :
    IsGap prev := by
  cases prev with
  | none => exact nofun
  | some c => exact isGap_of_touches h

/-- The characters that begin no word, blanks and quotes apart. -/
theorem mem_of_isTermStart_eq_false {c : Char} (hstart : isTermStart c = false)
    (hblank : isBlank c = false) (hquote : isQuote c = false) :
    c ∈ [':', '^', '\\', '~', '(', ')', '\x7b', '\x7d', '[', ']', '/', ',', '+', '-'] := by
  have hmem : isTermStop c = true ∨ c ∈ ['/', ',', '+', '-'] := by
    simpa [isTermStart, isTermChar, hblank, hquote, Classical.or_iff_not_imp_left] using hstart
  rw [isTermStop, List.contains_iff_mem] at hmem
  rw [← List.mem_append] at hmem
  exact hmem

/-- Where a mark is no operator. -/
theorem isNoise_of_readOperator? {prev : Option Char} {c : Char} {cs : List Char}
    (hstart : isTermStart c = false) (hblank : isBlank c = false) (hquote : isQuote c = false)
    (hend : c = '\\' → cs = []) (h : readOperator? prev c cs = none) :
    IsNoise prev c cs.head? := by
  have hc := mem_of_isTermStart_eq_false hstart hblank hquote
  rw [readOperator?.eq_def] at h
  split at h
  case h_1 => exact .slash
  case h_4 =>
    exact .sign (.inl rfl) (isGap_of_touches (by simpa using h))
  case h_5 =>
    exact .sign (.inr rfl) (isGap_of_touches (by simpa using h))
  case h_6 =>
    have hside : touches prev.toList = false ∨ touches cs = false := by
      simpa [Classical.or_iff_not_imp_left] using h
    exact .colon (hside.imp isGap_of_touches_toList isGap_of_touches)
  case h_13 =>
    -- the only marks that are no operators anywhere
    have hmark : c = ',' ∨ c = '\\' := by
      simp only [List.mem_cons, List.not_mem_nil, or_false] at hc
      grind
    rcases hmark with rfl | rfl
    · exact .comma
    · rw [hend rfl]
      exact .backslash
  all_goals cases h

/-- **Nothing but noise is passed over.** -/
theorem isNoise_of_readLexeme? {prev : Option Char} {c : Char} {cs : List Char}
    (h : readLexeme? prev c cs = none) : IsNoise prev c cs.head? := by
  rw [readLexeme?] at h
  split at h
  · rename_i hblank
    exact .blank hblank
  rename_i hblank
  simp only [Option.orElse_eq_orElse, Option.orElse_eq_or, Option.or_eq_none_iff] at h
  obtain ⟨-, -, hplain⟩ := h
  rw [readPlain?] at hplain
  split at hplain
  · cases hplain
  rename_i hstarts
  split at hplain
  · rename_i hquote
    exact .quote hquote
  rename_i hquote
  rw [Bool.or_eq_true, not_or, Bool.not_eq_true] at hstarts
  refine isNoise_of_readOperator? hstarts.1 (by simpa using hblank) (by simpa using hquote) ?_
    hplain
  rintro rfl
  simpa using hstarts.2

/-! ### Tiling -/

/-- The text `cs` stands at byte `position`, after the character `prev`. It is cut into the tokens
`ts` and noise. -/
inductive Tiles : Option Char → Nat → List Char → List Token → Prop where
  /-- The end. -/
  | nil {prev : Option Char} {position : Nat} : Tiles prev position [] []
  /-- A character that is passed over. -/
  | skip {prev : Option Char} {position : Nat} {c : Char} {cs : List Char} {ts : List Token}
      (hc : IsNoise prev c cs.head?) (h : Tiles (some c) (position + c.utf8Size) cs ts) :
      Tiles prev position (c :: cs) ts
  /-- A token. -/
  | token {prev : Option Char} {position : Nat} {raw cs : List Char} {ts : List Token}
      (l : Lexeme) (hraw : raw ≠ [])
      (h : Tiles raw.getLast? (position + byteLength raw) cs ts) :
      Tiles prev position (raw ++ cs) (⟨l, String.ofList raw, position⟩ :: ts)

/-- **The reader cuts the text into tokens and noise.** -/
theorem tiles_tokensFrom (prev : Option Char) (position : Nat) (cs : List Char) :
    Tiles prev position cs (tokensFrom prev position cs) := by
  fun_induction tokensFrom prev position cs with
  | case1 => exact .nil
  | case2 prev position c cs hnone ih => exact .skip (isNoise_of_readLexeme? hnone) ih
  | case3 prev position c cs lexeme n hsome raw ih =>
    have hsplit : c :: cs = raw ++ cs.drop n := by
      rw [List.cons_append, List.take_append_drop]
    rw [hsplit]
    exact .token lexeme (List.cons_ne_nil _ _) ih

section Tiles

variable {prev : Option Char} {position : Nat} {cs : List Char} {ts : List Token}

theorem Tiles.position_le (h : Tiles prev position cs ts) : ∀ t ∈ ts, position ≤ t.position := by
  induction h with
  | nil => exact List.forall_mem_nil _
  | skip _ _ ih => exact fun t ht => Nat.le_trans (Nat.le_add_right ..) (ih t ht)
  | token _ _ _ ih =>
    rw [List.forall_mem_cons]
    exact ⟨Nat.le_refl _, fun t ht => Nat.le_trans (Nat.le_add_right ..) (ih t ht)⟩

/-- A token ends before the next one begins. -/
theorem Tiles.pairwise (h : Tiles prev position cs ts) :
    ts.Pairwise fun t u => t.position + byteLength t.raw.toList ≤ u.position := by
  induction h with
  | nil => exact .nil
  | skip _ _ ih => exact ih
  | token l _ h ih =>
    refine .cons (fun u hu => ?_) ih
    rw [String.toList_ofList]
    exact h.position_le u hu

/-- A token is the part of the text that begins at its position. -/
theorem Tiles.exists_slice (h : Tiles prev position cs ts) {t : Token} (ht : t ∈ ts) :
    t.raw.toList ≠ [] ∧ ∃ before after, cs = before ++ t.raw.toList ++ after ∧
      position + byteLength before = t.position := by
  induction h with
  | nil => cases ht
  | @skip _ position c cs ts _ _ ih =>
    obtain ⟨hraw, before, after, rfl, hposition⟩ := ih ht
    refine ⟨hraw, c :: before, after, rfl, ?_⟩
    rw [byteLength]
    omega
  | @token _ position raw cs ts l hraw _ ih =>
    rcases List.mem_cons.1 ht with rfl | ht
    · rw [String.toList_ofList]
      exact ⟨hraw, [], cs, rfl, rfl⟩
    · obtain ⟨hne, before, after, rfl, hposition⟩ := ih ht
      refine ⟨hne, raw ++ before, after, by simp only [List.append_assoc], ?_⟩
      rw [byteLength_append]
      omega

/-- A character that stands in no token is noise between its neighbours. -/
theorem Tiles.isNoise (h : Tiles prev position cs ts) {before after : List Char} {c : Char}
    (hcs : cs = before ++ c :: after)
    (hout : ∀ t ∈ ts, position + byteLength before < t.position ∨
      t.position + byteLength t.raw.toList ≤ position + byteLength before) :
    IsNoise (before.getLast?.or prev) c after.head? := by
  induction h generalizing before with
  | nil => cases before <;> cases hcs
  | @skip prev position d cs ts hd _ ih =>
    cases before with
    | nil =>
      cases hcs
      exact hd
    | cons b before =>
      obtain ⟨rfl, rfl⟩ := List.cons.inj hcs
      have hprev : (d :: before).getLast?.or prev = before.getLast?.or (some d) := by
        rw [List.getLast?_cons]
        cases before.getLast? <;> rfl
      rw [hprev]
      refine ih rfl fun t ht => ?_
      have := hout t ht
      rw [byteLength] at this
      omega
  | @token prev position raw cs ts l hraw _ ih =>
    -- the character stands behind the token, which is the first part of what is before it
    obtain ⟨rest, rfl, hrest⟩ : ∃ rest, before = raw ++ rest ∧ cs = rest ++ c :: after := by
      rcases List.append_eq_append_iff.1 hcs with ⟨rest, hbefore, hcs⟩ | ⟨part, hraw', hcs⟩
      · exact ⟨rest, hbefore, hcs⟩
      · cases part with
        | nil => exact ⟨[], by simpa using hraw'.symm, by simpa using hcs.symm⟩
        | cons d part =>
          have hinside := hout _ List.mem_cons_self
          have := byteLength_pos (List.cons_ne_nil d part)
          dsimp only at hinside
          rw [String.toList_ofList, hraw', byteLength_append] at hinside
          omega
    have hprev : (raw ++ rest).getLast?.or prev = rest.getLast?.or raw.getLast? := by
      rw [List.getLast?_append, List.getLast?_eq_some_getLast hraw]
      cases rest.getLast? <;> rfl
    rw [hprev]
    refine ih hrest fun t ht => ?_
    have := hout t (List.mem_cons_of_mem _ ht)
    rw [byteLength_append] at this
    omega

end Tiles

/-- **The tokens of a text tile it.** Each is a part of the text that is not empty and begins at its
position, counted in bytes, none begins before the one before it ends, and every character that
stands in none of them is noise. -/
theorem tokenize_tiles (s : String) :
    (∀ t ∈ tokenize s, t.raw ≠ "" ∧ ∃ before after : String,
      s = before ++ t.raw ++ after ∧ before.utf8ByteSize = t.position) ∧
    (tokenize s).Pairwise (fun t u => t.position + t.raw.utf8ByteSize ≤ u.position) ∧
    ∀ (before after : String) (c : Char), s = before ++ String.singleton c ++ after →
      (∀ t ∈ tokenize s, before.utf8ByteSize < t.position ∨
        t.position + t.raw.utf8ByteSize ≤ before.utf8ByteSize) →
      IsNoise before.toList.getLast? c after.toList.head? := by
  have htiles : Tiles none 0 s.toList (tokenize s) := tiles_tokensFrom none 0 s.toList
  refine ⟨fun t ht => ?_, ?_, fun before after c hs hout => ?_⟩
  · obtain ⟨hraw, before, after, hs, hposition⟩ := htiles.exists_slice ht
    refine ⟨?_, String.ofList before, String.ofList after, ?_, ?_⟩
    · rintro hempty
      exact hraw (by rw [hempty]; rfl)
    · rw [← String.toList_inj, hs]
      simp
    · rw [← byteLength_toList, String.toList_ofList, ← hposition, Nat.zero_add]
  · simpa only [byteLength_toList] using htiles.pairwise
  · have hcs : s.toList = before.toList ++ c :: after.toList := by rw [hs]; simp
    have hnoise := htiles.isNoise hcs fun t ht => by
      simpa only [byteLength_toList, Nat.zero_add] using hout t ht
    rwa [Option.or_none] at hnoise

end SearchQuery
