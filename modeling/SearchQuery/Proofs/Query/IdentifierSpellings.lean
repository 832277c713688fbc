import SearchQuery.Pass.Identifiers
import SearchQuery.Proofs.Pass.Rebuilding
import SearchQuery.Proofs.Syntax.Parsing
import SearchQuery.Proofs.Token.Reading
import SearchQuery.Proofs.Token.Lexemes

/-!
# The ways to write an identifier

An identifier can be typed as it is, with blanks around its slash, or as the address that resolves
it. The three are one token each, and the pass that looks for identifiers makes the same search of
them.

## Two readers

The reader of tokens looks for an identifier at the front of a text and refuses one that goes on as
a word. The search in an address looks at every place and takes what it finds. Both use
`Doi.split?`, and nothing follows the identifier in any of the three texts, so it is enough to see
that no identifier begins before it in the address: an identifier begins with a digit, and there is
none in the name of the resolver.

## Main definitions

* `Spells` — a query text becomes the search for an identifier
* `resolver` — what the address of an identifier begins with

## Main results

* `tokenize_spaced`, `tokenize_resolver` — the texts are one token each
* `find?_resolver` — the identifier is found in its address
* `exists_spellings` — all spellings of an identifier meet
-/

namespace SearchQuery

open Text

variable {text d : String} {cs : List Char}

/-! ### Single tokens -/

theorem tokenize_of_read {c : Char} {l : Lexeme}
    (h : readLexeme? none c cs = some (l, cs.length)) :
    tokenize (String.ofList (c :: cs)) = [⟨l, String.ofList (c :: cs), 0⟩] := by
  have hread : readLexeme? none c (cs ++ []) = some (l, cs.length) := by rwa [List.append_nil]
  have htokens := tokensFrom_of_read hread 0
  rw [List.append_nil, tokensFrom] at htokens
  rw [tokenize, String.toList_ofList, htokens]

/-- The text of an identifier with a gap on each side of its slash is one token. -/
theorem tokenize_spaced (text : String) {ds before after front : List Char} {last : Char}
    (hlow : 4 ≤ ds.length) (hhigh : ds.length ≤ 9) (hds : ∀ c ∈ ds, isDecimalDigit c = true)
    (hbefore : Doi.IsGap before) (hafter : Doi.IsGap after)
    (hname : ∀ c ∈ front ++ [last], Doi.isNameChar c = true)
    (hlast : Doi.isNameEnd last = true)
    (htext : text.toList =
      '1' :: '0' :: '.' :: ds ++ before ++ '/' :: (after ++ (front ++ [last]))) :
    tokenize text = [⟨.doi (Doi.join ('1' :: '0' :: '.' :: ds) (front ++ [last])), text, 0⟩] := by
  have hread := readDoi?_append hlow hhigh hds hbefore hafter hname hlast endsAt_nil endsAt_nil rfl
  rw [← String.ofList_toList (s := text), htext]
  refine tokenize_of_read ?_
  rw [readLexeme?, if_neg (by decide), readUrl?_eq_none (by decide) (by decide)]
  rw [List.append_nil] at hread
  rw [show readDoi? '1' _ = _ from hread]
  rfl

/-- An identifier is the lowercase of its parts. -/
theorem join_of_isDoi {registrant name : List Char} (h : IsDoi d.toList)
    (hparts : d.toList = registrant ++ '/' :: name) : Doi.join registrant name = d := by
  rw [Doi.join, ← hparts, lowercase_eq_self h.lowered, String.ofList_toList]

/-! ### Addresses of identifiers -/

/-- What the address of an identifier begins with. -/
def resolver : String := "https://doi.org/"

theorem Url.isBodyChar_of_isDecimalDigit {c : Char} (h : isDecimalDigit c = true) :
    Url.isBodyChar c = true := by
  rw [Url.isBodyChar, Bool.and_eq_true, Bool.not_eq_true', decide_eq_true_eq]
  constructor
  · by_contra hblank
    rw [isDecimalDigit_of_isBlank (by simpa using hblank)] at h
    cases h
  · intro hmem
    have hnot := forall_mem_of_all (P := fun c => isDecimalDigit c = false) (by decide) c hmem
    cases hnot.symm.trans h

theorem Url.isBodyChar_of_isNameChar {c : Char} (h : Doi.isNameChar c = true) :
    Url.isBodyChar c = true :=
  forall_ascii (P := fun c => Doi.isNameChar c = true → Url.isBodyChar c = true) (by decide)
    (Doi.isAscii_of_isNameChar h) h

/-- An identifier goes on as an address does. -/
theorem IsDoi.isBodyChar (h : IsDoi cs) : ∀ c ∈ cs, Url.isBodyChar c = true := by
  obtain ⟨ds, front, last, rfl, -, -, hds, hname, -⟩ := h.parts
  have hmarks : ∀ c ∈ ['1', '0', '.', '/'], Url.isBodyChar c = true :=
    forall_mem_of_all (by decide)
  generalize front ++ [last] = name at hname
  simp only [List.cons_append, List.forall_mem_cons, List.forall_mem_append]
  exact ⟨hmarks _ (by decide), hmarks _ (by decide), hmarks _ (by decide),
    fun c hc => Url.isBodyChar_of_isDecimalDigit (hds c hc), hmarks _ (by decide),
    fun c hc => Url.isBodyChar_of_isNameChar (hname c hc)⟩

/-- The address of an identifier is one token. -/
theorem tokenize_resolver (h : IsDoi d.toList) :
    tokenize (resolver ++ d) = [⟨.url (resolver ++ d), resolver ++ d, 0⟩] := by
  have htext : (resolver ++ d).toList = 'h' :: ("ttps://doi.org/".toList ++ d.toList) := by
    rw [String.toList_append]
    rfl
  have hurl : IsUrl ('h' :: ("ttps://doi.org/".toList ++ d.toList)) := by
    refine ⟨"https://".toList, "doi.org/".toList ++ d.toList, rfl, ?_, by simp, fun c hc => ?_⟩
    · exact .secure (by decide) (by decide) (by decide) (by decide) (by decide)
    · rcases List.mem_append.1 hc with hhost | hd
      · exact forall_mem_of_all (P := fun c => Url.isBodyChar c = true) (by decide) c hhost
      · exact h.isBodyChar c hd
  have hread := readUrl?_of_isUrl hurl endsAt_nil
  rw [List.append_nil] at hread
  rw [← String.ofList_toList (s := resolver ++ d), htext]
  refine tokenize_of_read ?_
  rw [readLexeme?, if_neg (by decide), hread]
  rfl

/-- No identifier begins in a text that does not have the first digit of identifiers. -/
theorem Doi.findChars?_append {front : List Char} (h : '1' ∉ front) :
    Doi.findChars? (front ++ cs) = Doi.findChars? cs := by
  induction front with
  | nil => rfl
  | cons c front ih =>
    rw [List.mem_cons, not_or] at h
    rw [List.cons_append, Doi.findChars?, Doi.split?_eq_none (Ne.symm h.1)]
    exact ih h.2

/-- **An identifier is found in its address.** -/
theorem find?_resolver (h : IsDoi d.toList) : Doi.find? (resolver ++ d) = some d := by
  obtain ⟨ds, front, last, hd, hlow, hhigh, hds, hname, hlast⟩ := h.parts
  have hsplit := Doi.split?_append hlow hhigh hds Doi.isGap_nil Doi.isGap_nil hname hlast
    endsAt_nil
  rw [List.append_nil, List.append_nil, List.nil_append] at hsplit
  rw [Doi.find?, String.toList_append, Doi.findChars?_append (by decide), hd, List.cons_append,
    Doi.findChars?, ← List.cons_append, hsplit]
  exact congrArg some (join_of_isDoi h hd)

/-! ### Searches -/

/-- The text is read as a tree of which the pass for identifiers makes the search for `d`, and
nothing else is noted. -/
def Spells (text d : String) : Prop :=
  ∃ e, parse text = .ok (some e) ∧ ∀ (s : IdentifierSettings) (c : Context),
    (Pass.identifiers s).run e c = (some (s.search d), { c with dois := c.dois ++ [d] })

theorem spells_of_tokenize {t : Token} {e : Expr} (htext : tokenize text = [t])
    (he : Derives .unary [t] e) (hd : IdentifierSettings.identifier? e = some d) :
    Spells text d := by
  refine ⟨e, ?_, fun s c => ?_⟩
  · rw [parse, htext]
    exact parseTokens_of_derives (.alone (.bare he))
  · have htransform : s.transform e [] c =
        (.final (s.search d), { c with dois := c.dois ++ [d] }) := by
      simp only [IdentifierSettings.transform, hd]
      rfl
    refine (Pass.parentsFirst_eq_of_final rfl (congrArg Prod.fst htransform)).trans ?_
    exact congrArg (fun r => (some (s.search d), r.2)) htransform

/-- **All spellings of an identifier meet.** Whatever text an identifier is read from, it has two
parts with its first slash between them. The identifier, its parts with blanks around the slash and
its address are one token each, the identifier is found in its address, and all three are the same
search. -/
theorem exists_spellings {t : Token} (ht : t ∈ tokenize text) (hd : t.lexeme = .doi d) :
    ∃ p s : String, d = p ++ "/" ++ s ∧ '/' ∉ p.toList ∧
      tokenize d = [⟨.doi d, d, 0⟩] ∧
      tokenize (p ++ " / " ++ s) = [⟨.doi d, p ++ " / " ++ s, 0⟩] ∧
      tokenize (resolver ++ d) = [⟨.url (resolver ++ d), resolver ++ d, 0⟩] ∧
      Doi.find? (resolver ++ d) = some d ∧
      Spells d d ∧ Spells (p ++ " / " ++ s) d ∧ Spells (resolver ++ d) d := by
  have hdoi : IsDoi d.toList := by
    have hreadable := readable_of_mem_tokenize ht
    rwa [Token.Readable, hd] at hreadable
  obtain ⟨ds, front, last, hparts, hlow, hhigh, hds, hname, hlast⟩ := hdoi.parts
  have hjoin := join_of_isDoi hdoi hparts
  have hblank : Doi.IsGap [' '] := ⟨Nat.le_refl 1, by simp; decide⟩
  have hplain : tokenize d = [⟨.doi d, d, 0⟩] := by
    have htokens := tokenize_spaced d hlow hhigh hds Doi.isGap_nil Doi.isGap_nil hname
      hlast (by rw [hparts, List.append_nil, List.nil_append])
    rwa [hjoin] at htokens
  generalize hp : String.ofList ('1' :: '0' :: '.' :: ds) = p
  generalize hs : String.ofList (front ++ [last]) = s
  have hpList : p.toList = '1' :: '0' :: '.' :: ds := by rw [← hp, String.toList_ofList]
  have hsList : s.toList = front ++ [last] := by rw [← hs, String.toList_ofList]
  have hspaced : tokenize (p ++ " / " ++ s) = [⟨.doi d, p ++ " / " ++ s, 0⟩] := by
    have htokens := tokenize_spaced (p ++ " / " ++ s) hlow hhigh hds hblank hblank hname
      hlast (by rw [String.toList_append, String.toList_append, hpList, hsList]; simp)
    rwa [hjoin] at htokens
  have hsplit : d = p ++ "/" ++ s := String.toList_injective <| by
    rw [String.toList_append, String.toList_append, hpList, hsList, hparts]
    simp
  have hslash : '/' ∉ p.toList := by
    rw [hpList]
    simp only [List.mem_cons, Char.reduceEq, false_or]
    exact fun hmem => absurd (hds '/' hmem) (by decide)
  exact ⟨p, s, hsplit, hslash, hplain, hspaced, tokenize_resolver hdoi, find?_resolver hdoi,
    spells_of_tokenize hplain (.doi rfl) rfl, spells_of_tokenize hspaced (.doi rfl) rfl,
    spells_of_tokenize (tokenize_resolver hdoi) (.url rfl) (find?_resolver hdoi)⟩

/-- The spellings of an identifier in capitals that stands beside a word. -/
theorem exists_spellings_of_capitals :
    ∃ t ∈ tokenize "see 10.1234/AB.7", t.lexeme = .doi "10.1234/ab.7" ∧
      ∃ p s : String, "10.1234/ab.7" = p ++ "/" ++ s ∧ '/' ∉ p.toList ∧
        tokenize (p ++ " / " ++ s) = [⟨.doi "10.1234/ab.7", p ++ " / " ++ s, 0⟩] ∧
        Doi.find? (resolver ++ "10.1234/ab.7") = some "10.1234/ab.7" ∧
        Spells (p ++ " / " ++ s) "10.1234/ab.7" ∧
        Spells (resolver ++ "10.1234/ab.7") "10.1234/ab.7" := by
  have htokens : tokenize "see 10.1234/AB.7" =
      [⟨.term "see", "see", 0⟩, ⟨.doi "10.1234/ab.7", "10.1234/AB.7", 4⟩] := by
    with_unfolding_all rfl
  have ht : ⟨.doi "10.1234/ab.7", "10.1234/AB.7", 4⟩ ∈ tokenize "see 10.1234/AB.7" := by
    rw [htokens]
    decide
  obtain ⟨p, s, hsplit, hslash, -, hspaced, -, hfound, -, hspells, haddress⟩ :=
    exists_spellings ht rfl
  exact ⟨_, ht, rfl, p, s, hsplit, hslash, hspaced, hfound, hspells, haddress⟩

end SearchQuery
