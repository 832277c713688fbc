import SearchQuery.Proofs.Toml.Arrangement
import SearchQuery.Proofs.Toml.Slots
import SearchQuery.Proofs.Toml.Values

/-!
# Documents are read back

A document is read line by line. What is written of a table is read back as the table, but for the
order of its entries and for those that hold nothing.

## What a part of a document does

`Leads` says that the reader, come to a part of a document, gets past it, and what it has then. It
leaves open what follows the part, so parts that stand one after the other compose, and how much
fuel is left, as long as it is enough for what follows.

## Main definitions

* `Tabled` — the tables that can be written and read back
* `Leads` — what a part of a document does to the document that is being read

## Main results

* `leads_valueLines?`, `leads_innerTables?` — the lines of a table add its entries
* `read?_of_write?` — a document is read back
-/

namespace SearchQuery.Toml

variable {draft draft' draft'' : Draft} {text : List Char} {key : String} {path : List String}

/-! ### Parts of documents -/

/-- Reading the text leads from a document to another one. -/
def Leads (draft : Draft) (text : List Char) (draft' : Draft) : Prop :=
  ∀ (rest : List Char) (fuel : Nat), (text ++ rest).length < fuel →
    ∃ fuel', rest.length < fuel' ∧ lines? fuel draft (text ++ rest) = lines? fuel' draft' rest

theorem Leads.refl (draft : Draft) : Leads draft [] draft :=
  fun _ fuel hfuel => ⟨fuel, hfuel, rfl⟩

theorem Leads.append {more : List Char} (h : Leads draft text draft')
    (h' : Leads draft' more draft'') : Leads draft (text ++ more) draft'' := by
  intro rest fuel hfuel
  rw [List.append_assoc] at hfuel ⊢
  obtain ⟨fuel', hfuel', heq⟩ := h _ _ hfuel
  obtain ⟨fuel'', hfuel'', heq'⟩ := h' _ _ hfuel'
  exact ⟨fuel'', hfuel'', heq.trans heq'⟩

/-- A line is a part of a document. -/
theorem leads_of_line? (hne : text ≠ [])
    (h : ∀ rest, line? draft (text ++ rest) = some (draft', rest)) : Leads draft text draft' := by
  intro rest fuel hfuel
  obtain ⟨c, cs, rfl⟩ := List.exists_cons_of_ne_nil hne
  rw [List.length_append, List.length_cons] at hfuel
  obtain ⟨fuel, rfl⟩ : ∃ k, fuel = k + 1 := ⟨fuel - 1, by omega⟩
  refine ⟨fuel, by omega, ?_⟩
  have hline := h rest
  rw [List.cons_append] at hline ⊢
  rw [lines?.eq_3 _ _ _ (List.cons_ne_nil _ _), hline]
  rfl

/-- The document after all its lines. -/
theorem Leads.lines?_eq (h : Leads draft text draft') :
    lines? (text.length + 1) draft text = some draft' := by
  have hfuel : (text ++ []).length < text.length + 1 := by
    rw [List.append_nil]
    exact Nat.lt_succ_self _
  obtain ⟨fuel', -, heq⟩ := h _ _ hfuel
  rw [List.append_nil] at heq
  rw [heq]
  cases fuel' <;> rfl

/-! ### Keys -/

/-- Whether a key may begin with `c`. -/
def isKeyStart (c : Char) : Bool := isBareKeyChar c || c == '"' || c == '\''

theorem exists_keyChars_eq (cs : List Char) :
    ∃ c tail, keyChars cs = c :: tail ∧ isKeyStart c = true := by
  rw [keyChars]
  split
  · rename_i hbare
    simp only [Bool.and_eq_true, Bool.not_eq_true', List.all_eq_true, List.isEmpty_eq_false_iff]
      at hbare
    obtain ⟨c, cs, rfl⟩ := List.exists_cons_of_ne_nil hbare.1
    have hc : isBareKeyChar c = true := hbare.2 c (List.mem_cons_self ..)
    exact ⟨c, cs, rfl, by rw [isKeyStart, hc]; rfl⟩
  split
  · exact ⟨_, _, rfl, rfl⟩
  split
  · exact ⟨_, _, rfl, rfl⟩
  · exact ⟨_, _, rfl, rfl⟩

theorem ne_of_isKeyStart {c d : Char} (h : isKeyStart c = true) (hd : isKeyStart d = false) :
    c ≠ d := fun heq => by rw [heq, hd] at h; cases h

theorem skipSpaces_of_isKeyStart {c : Char} (h : isKeyStart c = true) (cs : List Char) :
    skipSpaces (c :: cs) = c :: cs := by
  rw [skipSpaces, List.dropWhile_cons_of_neg]
  simp [isSpace, ne_of_isKeyStart h (d := ' ') rfl, ne_of_isKeyStart h (d := '\t') rfl]

/-- The parts of a key after its first one, each with the dot before it. -/
def dottedKeys (path : List String) : List Char :=
  path.flatMap fun key => '.' :: keyChars key.toList

theorem skipSpaces_keyChars (cs rest : List Char) :
    skipSpaces (keyChars cs ++ rest) = keyChars cs ++ rest := by
  obtain ⟨c, tail, hkey, hc⟩ := exists_keyChars_eq cs
  rw [hkey, List.cons_append, skipSpaces_of_isKeyStart hc]

theorem dottedKeys_cons (key : String) (path : List String) (rest : List Char) :
    dottedKeys (key :: path) ++ rest =
      '.' :: (keyChars key.toList ++ (dottedKeys path ++ rest)) := by
  simp [dottedKeys]

theorem moreKeyParts?_dot (fuel : Nat) (rest : List Char) :
    moreKeyParts? (fuel + 1) ('.' :: rest) = (keyPart? (skipSpaces rest)).bind fun (part, rest) =>
      (moreKeyParts? fuel rest).bind fun (parts, rest) => some (part :: parts, rest) := rfl

section AfterKey

variable {rest : List Char}

theorem head?_dottedKeys (h : ∀ c ∈ rest.head?, isBareKeyChar c = false) (path : List String) :
    ∀ c ∈ (dottedKeys path ++ rest).head?, isBareKeyChar c = false := by
  cases path with
  | nil => exact h
  | cons key path =>
    rintro c ⟨⟩
    rfl

theorem moreKeyParts?_append (hdot : ∀ tail, skipSpaces rest ≠ '.' :: tail)
    (hbare : ∀ c ∈ rest.head?, isBareKeyChar c = false) {fuel : Nat} (hfuel : path.length < fuel) :
    moreKeyParts? fuel (dottedKeys path ++ rest) = some (path, skipSpaces rest) := by
  induction path generalizing fuel with
  | nil =>
    obtain ⟨fuel, rfl⟩ := Nat.exists_eq_succ_of_ne_zero (Nat.ne_zero_of_lt hfuel)
    rw [dottedKeys, List.flatMap_nil, List.nil_append, moreKeyParts?]
    split
    · rename_i heq
      exact absurd heq (hdot _)
    · rfl
  | cons key path ih =>
    obtain ⟨fuel, rfl⟩ := Nat.exists_eq_succ_of_ne_zero (Nat.ne_zero_of_lt hfuel)
    rw [dottedKeys_cons, moreKeyParts?_dot, skipSpaces_keyChars,
      keyPart?_append _ (head?_dottedKeys hbare path), Option.bind_some]
    dsimp only
    rw [ih (Nat.lt_of_succ_lt_succ hfuel), String.ofList_toList]
    rfl

theorem length_le_dottedKeys (path : List String) : path.length ≤ (dottedKeys path).length := by
  induction path with
  | nil => exact Nat.zero_le _
  | cons key path ih =>
    have hcons := dottedKeys_cons key path []
    simp only [List.append_nil] at hcons
    rw [hcons, List.length_cons, List.length_cons, List.length_append]
    omega

/-- **A key with dots is read back**, if what follows cannot be taken for a part of it. -/
theorem key?_append (hdot : ∀ tail, skipSpaces rest ≠ '.' :: tail)
    (hbare : ∀ c ∈ rest.head?, isBareKeyChar c = false) (hlength : path.length < nestingLimit) :
    key? (keyChars key.toList ++ (dottedKeys path ++ rest)) =
      some ((key :: path).dropLast, (key :: path).getLast?.getD key, skipSpaces rest) := by
  have hfuel : path.length < (keyChars key.toList ++ (dottedKeys path ++ rest)).length + 1 := by
    have hle := length_le_dottedKeys path
    simp only [List.length_append]
    omega
  rw [key?, keyPart?_append _ (head?_dottedKeys hbare path), String.ofList_toList]
  dsimp only [Option.bind_eq_bind, Option.bind_some]
  rw [moreKeyParts?_append hdot hbare hfuel, Option.bind_some, if_pos hlength]

end AfterKey

/-! ### Lines -/

theorem leads_blankLine (draft : Draft) : Leads draft ['\n'] draft :=
  leads_of_line? (List.cons_ne_nil _ _) fun _ => rfl

/-- What begins like a key is read as a key and a value. -/
theorem line?_of_key? {c : Char} {cs cs' rest : List Char} {d : Data} {entries : Entries}
    (hc : isKeyStart c = true) (hkey : key? (c :: cs) = some (path, key, '=' :: ' ' :: cs'))
    (hvalue : value? (skipSpaces cs') = some (d, '\n' :: rest))
    (hmodify : modify? draft.current (insert? path key d) draft.entries = some entries) :
    line? draft (c :: cs) = some (⟨entries, draft.current⟩, rest) := by
  have hbracket : c ≠ '[' := ne_of_isKeyStart hc rfl
  have hmeaning : ¬ (c == '#' || 0 < lineEndLength (c :: cs)) = true := by
    rw [lineEndLength_eq_zero (ne_of_isKeyStart hc rfl) (ne_of_isKeyStart hc rfl),
      beq_eq_false_iff_ne.2 (ne_of_isKeyStart hc rfl)]
    decide
  have hread : value? (skipSpaces (' ' :: cs')) = some (d, '\n' :: rest) := hvalue
  rw [line?, skipSpaces_of_isKeyStart hc]
  split
  · rename_i heq
    exact absurd (List.cons.inj heq).1 hbracket
  · rename_i heq
    exact absurd (List.cons.inj heq).1 hbracket
  · rename_i heq
    cases heq
    rw [if_neg hmeaning, hkey]
    change (value? (skipSpaces (' ' :: cs'))).bind _ = _
    rw [hread, Option.bind_some]
    change (modify? draft.current (insert? path key d) draft.entries).bind _ = _
    rw [hmodify]
    rfl
  · rename_i heq
    cases heq

theorem ReadsAs.skipSpaces_append {d : Data} {depth : Nat} (h : ReadsAs depth d text)
    (rest : List Char) : skipSpaces (text ++ rest) = text ++ rest := by
  obtain ⟨c, tail, rfl, hc⟩ := h.exists_start
  rw [skipSpaces, List.cons_append, List.dropWhile_cons_of_neg]
  simp [isSpace, ne_of_isValueStart hc (d := ' ') rfl, ne_of_isValueStart hc (d := '\t') rfl]

/-- A line with a key and a value adds a slot to the table that the last header opened. -/
theorem leads_valueLine {d : Data} {value : List Char} {entries entries' : Entries}
    (hd : Inline nestingLimit d) (hvalue : valueText? d = some value)
    (hadd : modify? path (addSlot? key (.value d)) entries = some entries') :
    Leads ⟨entries, path⟩ (keyChars key.toList ++ " = ".toList ++ value ++ ['\n'])
      ⟨entries', path⟩ := by
  obtain ⟨c, tail, hkey, hc⟩ := exists_keyChars_eq key.toList
  refine leads_of_line? (by rw [hkey]; exact List.cons_ne_nil _ _) fun rest => ?_
  have htext : keyChars key.toList ++ " = ".toList ++ value ++ ['\n'] ++ rest =
      keyChars key.toList ++ (dottedKeys [] ++ (' ' :: '=' :: ' ' :: (value ++ '\n' :: rest))) := by
    simp [dottedKeys]
  have hread : key? (keyChars key.toList ++
      (dottedKeys [] ++ (' ' :: '=' :: ' ' :: (value ++ '\n' :: rest)))) =
        some ([], key, '=' :: ' ' :: (value ++ '\n' :: rest)) :=
    key?_append (fun _ h => absurd (List.cons.inj h).1 (by decide)) (by simp [isBareKeyChar])
      (by decide)
  have hrest : value? (skipSpaces (value ++ '\n' :: rest)) = some (d, '\n' :: rest) := by
    rw [(hd.readsAs hvalue).skipSpaces_append]
    exact hd.value?_append hvalue ⟨'\n', rest, rfl, .inl rfl⟩
  rw [htext]
  rw [hkey, List.cons_append] at hread ⊢
  exact line?_of_key? hc hread hrest hadd

/-- The parts of a key with dots between them. -/
theorem intercalate_keyChars (key : String) (path : List String) :
    List.intercalate ['.'] ((key :: path).map fun key => keyChars key.toList) =
      keyChars key.toList ++ dottedKeys path := by
  induction path generalizing key with
  | nil => simp [dottedKeys, List.intercalate]
  | cons next path ih =>
    have hcons := dottedKeys_cons next path []
    simp only [List.append_nil] at hcons
    have hnext := ih next
    rw [List.map_cons] at hnext
    rw [List.map_cons, List.map_cons, List.intercalate_cons_cons, hcons, hnext]
    simp

theorem line?_of_header {c : Char} {cs rest : List Char} {entries : Entries}
    (hc : isKeyStart c = true) (hkey : key? (c :: cs) = some (path, key, ']' :: '\n' :: rest))
    (hopen : open? path key draft.entries = some entries) :
    line? draft ('[' :: c :: cs) = some (⟨entries, path ++ [key]⟩, rest) := by
  have hbracket : c ≠ '[' := ne_of_isKeyStart hc rfl
  have hskip : skipSpaces ('[' :: c :: cs) = '[' :: c :: cs := rfl
  rw [line?, hskip]
  split
  · rename_i heq
    cases heq
    exact absurd rfl hbracket
  · rename_i heq
    cases heq
    rw [skipSpaces_of_isKeyStart hc, hkey]
    change (open? path key draft.entries).bind _ = _
    rw [hopen]
    rfl
  · rename_i hne heq
    cases heq
    exact (hne rfl).elim
  · rename_i heq
    cases heq

/-- A header opens a table. -/
theorem leads_headerLine {entries : Entries} (hlength : path.length < nestingLimit)
    (hopen : open? path key draft.entries = some entries) :
    Leads draft (headerLine (path ++ [key])) ⟨entries, path ++ [key]⟩ := by
  obtain ⟨first, more, hpath⟩ := List.exists_cons_of_ne_nil (List.concat_ne_nil key path)
  have hmore : more.length < nestingLimit := by
    have hcount := congrArg List.length hpath
    rw [List.length_append, List.length_singleton, List.length_cons] at hcount
    omega
  have htext : headerLine (path ++ [key]) =
      ['\n'] ++ ('[' :: (keyChars first.toList ++ (dottedKeys more ++ [']', '\n']))) := by
    rw [headerLine, hpath, intercalate_keyChars]
    simp
  rw [htext]
  refine (leads_blankLine draft).append (leads_of_line? (List.cons_ne_nil _ _) fun rest => ?_)
  have hkey : key? (keyChars first.toList ++ (dottedKeys more ++ (']' :: '\n' :: rest))) =
      some ((first :: more).dropLast, (first :: more).getLast?.getD first, ']' :: '\n' :: rest) :=
    key?_append (fun _ h => absurd (List.cons.inj h).1 (by decide)) (by simp [isBareKeyChar]) hmore
  rw [← hpath, List.dropLast_concat, List.getLast?_concat, Option.getD_some] at hkey
  obtain ⟨c, tail, hfirst, hc⟩ := exists_keyChars_eq first.toList
  rw [hfirst, List.cons_append] at hkey ⊢
  simpa using line?_of_header hc hkey hopen

/-! ### Tables -/

/-- The tables that can be written and read back: their keys differ, and the tables in them are
nested to a depth. -/
inductive Tabled : Nat → List (String × Data) → Prop where
  /-- A table. -/
  | intro {depth : Nat} {entries : List (String × Data)} (hnodup : (entries.map Prod.fst).Nodup)
      (hvalues : ∀ entry ∈ entries, isInline entry.2 = true → Inline nestingLimit entry.2)
      (htables : ∀ key inner, (key, Data.table inner) ∈ entries → Tabled depth inner) :
      Tabled (depth + 1) entries

/-- The value can stand in a table that can be written and read back. -/
structure Storable (depth : Nat) (d : Data) : Prop where
  /-- If it stands behind its key, it can be read back there. -/
  inline : isInline d = true → Inline nestingLimit d
  /-- If it is a table, that can be read back. -/
  tabled : ∀ inner, d = .table inner → Tabled depth inner

theorem tabled_of_forall {depth : Nat} {entries : List (String × Data)}
    (hnodup : (entries.map Prod.fst).Nodup) (h : ∀ entry ∈ entries, Storable depth entry.2) :
    Tabled (depth + 1) entries :=
  .intro hnodup (fun entry hentry => (h entry hentry).inline)
    fun key inner hmem => (h (key, .table inner) hmem).tabled inner rfl

theorem storable_null (depth : Nat) : Storable depth .null where
  inline h := by cases h
  tabled _ h := by cases h

theorem Inline.storable {d : Data} (h : Inline nestingLimit d) (depth : Nat) :
    Storable depth d where
  inline _ := h
  tabled inner heq := by
    subst heq
    cases h

theorem Tabled.storable {depth : Nat} {entries : List (String × Data)} (h : Tabled depth entries) :
    Storable depth (.table entries) where
  inline h := by cases h
  tabled inner heq := by
    cases heq
    exact h

/-! ### Tables that are written -/

/-- A value that stands behind its key has a line, and other entries have none. -/
theorem valueLines?_cons_cases {entries : List (String × Data)} {d : Data}
    (h : valueLines? ((key, d) :: entries) = some text) :
    (isInline d = true ∧ ∃ value more, valueText? d = some value ∧
        valueLines? entries = some more ∧
        text = keyChars key.toList ++ " = ".toList ++ value ++ '\n' :: more) ∨
      (isInline d = false ∧ valueLines? entries = some text) := by
  rw [valueLines?] at h
  split at h
  · rename_i hinline
    obtain ⟨value, hvalue, h⟩ := Option.bind_eq_some_iff.1 h
    obtain ⟨more, hmore, h⟩ := Option.bind_eq_some_iff.1 h
    cases h
    exact .inl ⟨hinline, value, more, hvalue, hmore, rfl⟩
  · rename_i hinline
    exact .inr ⟨Bool.not_eq_true _ ▸ hinline, h⟩

/-- The lines of the first entry stand before those of the others. -/
theorem exists_of_innerTables?_cons {entries : List (String × Data)} {d : Data}
    (h : innerTables? path ((key, d) :: entries) = some text) :
    ∃ table more, tableLines? path key d = some table ∧ innerTables? path entries = some more ∧
      text = table ++ more := by
  rw [innerTables?] at h
  obtain ⟨table, htable, h⟩ := Option.bind_eq_some_iff.1 h
  obtain ⟨more, hmore, h⟩ := Option.bind_eq_some_iff.1 h
  cases h
  exact ⟨table, more, htable, hmore, rfl⟩

/-- A table has a header, the lines of its values and those of the tables in it. -/
theorem exists_of_tableLines? {inner : List (String × Data)}
    (h : tableLines? path key (.table inner) = some text) :
    ∃ values tables, valueLines? inner = some values ∧
      innerTables? (path ++ [key]) inner = some tables ∧
      text = headerLine (path ++ [key]) ++ values ++ tables := by
  rw [tableLines?] at h
  obtain ⟨values, hvalues, h⟩ := Option.bind_eq_some_iff.1 h
  obtain ⟨tables, htables, h⟩ := Option.bind_eq_some_iff.1 h
  cases h
  exact ⟨values, tables, hvalues, htables, rfl⟩

theorem exists_valueText?_of_mem {entries : List (String × Data)} {d : Data}
    (hwrite : valueLines? entries = some text) (hmem : (key, d) ∈ entries)
    (hinline : isInline d = true) : ∃ value, valueText? d = some value := by
  induction entries generalizing text with
  | nil => cases hmem
  | cons entry entries ih =>
    rcases valueLines?_cons_cases hwrite with ⟨-, value, more, hvalue, hmore, -⟩ | ⟨hnot, hmore⟩
    · rcases List.mem_cons.1 hmem with rfl | hmem
      · exact ⟨value, hvalue⟩
      · exact ih hmore hmem
    · rcases List.mem_cons.1 hmem with rfl | hmem
      · rw [hnot] at hinline
        cases hinline
      · exact ih hmore hmem

theorem exists_lines?_of_mem {entries inner : List (String × Data)}
    (hwrite : innerTables? path entries = some text) (hmem : (key, .table inner) ∈ entries) :
    ∃ values tables, valueLines? inner = some values ∧
      innerTables? (path ++ [key]) inner = some tables := by
  induction entries generalizing text with
  | nil => cases hmem
  | cons entry entries ih =>
    obtain ⟨table, more, htable, hmore, -⟩ := exists_of_innerTables?_cons hwrite
    rcases List.mem_cons.1 hmem with rfl | hmem
    · obtain ⟨values, tables, hvalues, htables, -⟩ := exists_of_tableLines? htable
      exact ⟨values, tables, hvalues, htables⟩
    · exact ih hmore hmem

/-- The lines of the values of a table add them. -/
theorem leads_valueLines? {entries : List (String × Data)} {added added' : Entries}
    (hvalues : ∀ entry ∈ entries, isInline entry.2 = true → Inline nestingLimit entry.2)
    (hwrite : valueLines? entries = some text) (hself : modify? path some added = some added)
    (hadd : modify? path (addAll? (slotsOf (inlineEntries entries))) added = some added') :
    Leads ⟨added, path⟩ text ⟨added', path⟩ := by
  induction entries generalizing text added with
  | nil =>
    cases hwrite
    cases hself.symm.trans hadd
    exact .refl _
  | cons entry entries ih =>
    obtain ⟨key, d⟩ := entry
    rw [List.forall_mem_cons] at hvalues
    rcases valueLines?_cons_cases hwrite with
      ⟨hinline, value, more, hvalue, hmore, rfl⟩ | ⟨hnot, hmore⟩
    · have hd := hvalues.1 hinline
      have htable : isTable d = false := by
        rw [Bool.eq_false_iff]
        intro htable
        rw [isInline_eq_false_of_isTable htable] at hinline
        cases hinline
      have hslots : slotsOf (inlineEntries ((key, d) :: entries)) =
          (key, .value d) :: slotsOf (inlineEntries entries) := by
        rw [inlineEntries, List.filter_cons_of_pos (by exact hinline), slotsOf,
          slotOf_of_isTable htable]
        rfl
      rw [hslots] at hadd
      obtain ⟨middle, hfirst, hrest⟩ := exists_of_modify?_bind hadd
      have hline := leads_valueLine hd hvalue hfirst
      have hlines := hline.append (ih hvalues.2 hmore (modify?_self hfirst) hrest)
      simpa using hlines
    · have hslots : inlineEntries ((key, d) :: entries) = inlineEntries entries :=
        List.filter_cons_of_neg (by rw [hnot]; exact Bool.false_ne_true)
      rw [hslots] at hadd
      exact ih hvalues.2 hmore hself hadd

/-- The text adds slots to the table at a path, whatever the last header opened. -/
def Adds (path : List String) (slots : Entries) (text : List Char) : Prop :=
  ∀ (draft : Draft) (added : Entries), modify? path some draft.entries = some draft.entries →
    modify? path (addAll? slots) draft.entries = some added →
      ∃ current, Leads draft text ⟨added, current⟩

theorem adds_nil (path : List String) : Adds path [] [] := by
  intro draft added hself hadd
  cases hself.symm.trans hadd
  exact ⟨draft.current, .refl draft⟩

theorem Adds.append {slots slots' : Entries} {text' : List Char} (h : Adds path slots text)
    (h' : Adds path slots' text') : Adds path (slots ++ slots') (text ++ text') := by
  intro draft added hself hadd
  have hsplit : addAll? (slots ++ slots') = fun es => (addAll? slots es).bind (addAll? slots') :=
    funext fun es => addAll?_append slots slots'
  rw [hsplit] at hadd
  obtain ⟨middle, hfirst, hrest⟩ := exists_of_modify?_bind hadd
  obtain ⟨current, hleads⟩ := h draft middle hself hfirst
  obtain ⟨current', hleads'⟩ := h' ⟨middle, current⟩ added (modify?_self hfirst) hrest
  exact ⟨current', hleads.append hleads'⟩

/-- The lines of one table add it, if the lines of the tables in it add those. -/
theorem adds_tableLines? {inner : List (String × Data)} (hnodup : (inner.map Prod.fst).Nodup)
    (hlength : path.length < nestingLimit)
    (hvalues : ∀ entry ∈ inner, isInline entry.2 = true → Inline nestingLimit entry.2)
    (htables : ∀ text, innerTables? (path ++ [key]) inner = some text →
      Adds (path ++ [key]) (slotsOf (arrangeTables inner)) text)
    (hwrite : tableLines? path key (.table inner) = some text) :
    Adds path [(key, slotOf (arrangeValue (.table inner)))] text := by
  obtain ⟨values, tables, hvalueLines, htableLines, rfl⟩ := exists_of_tableLines? hwrite
  have hkeys := nodup_keys_slotsOf hnodup
  intro draft added _ hadd
  rw [arrangeValue, slotOf, slotsOf_append, addAll?_singleton] at hadd
  obtain ⟨opened, filled, hopened, hself, hfilled, hadded⟩ := exists_open?_of_modify? hkeys hadd
  have hheader := leads_headerLine hlength hopened
  have hvalueLeads := leads_valueLines? hvalues hvalueLines hself hfilled
  obtain ⟨current, htableLeads⟩ := htables tables htableLines ⟨filled, path ++ [key]⟩ added
    (modify?_self hfilled) hadded
  exact ⟨current, (hheader.append hvalueLeads).append htableLeads⟩

/-- The lines of the tables in a table add them, if those of each one add it. -/
theorem adds_innerTables?_of_forall {entries : List (String × Data)}
    (h : ∀ key inner, (key, Data.table inner) ∈ entries → ∀ text,
      tableLines? path key (.table inner) = some text →
        Adds path [(key, slotOf (arrangeValue (.table inner)))] text)
    (hwrite : innerTables? path entries = some text) :
    Adds path (slotsOf (arrangeTables entries)) text := by
  induction entries generalizing text with
  | nil =>
    rw [innerTables?] at hwrite
    cases hwrite
    rw [arrangeTables, slotsOf]
    exact adds_nil path
  | cons entry entries ih =>
    obtain ⟨key, d⟩ := entry
    obtain ⟨table, more, htable, hmore, rfl⟩ := exists_of_innerTables?_cons hwrite
    have hrest := ih (fun key inner hmem => h key inner (List.mem_cons_of_mem _ hmem)) hmore
    cases d with
    | table inner =>
      rw [arrangeTables_cons_of_isTable rfl, slotsOf]
      exact (h key inner (List.mem_cons_self ..) table htable).append hrest
    | _ =>
      rw [arrangeTables_cons_of_not_isTable rfl]
      cases htable
      exact hrest

/-- The lines of the tables in a table add them. -/
theorem adds_innerTables? {depth : Nat} {entries : List (String × Data)}
    (htabled : Tabled depth entries) (hdepth : path.length + depth ≤ nestingLimit + 1)
    (hwrite : innerTables? path entries = some text) :
    Adds path (slotsOf (arrangeTables entries)) text := by
  induction htabled generalizing text path with
  | @intro depth entries _ _ htables ih =>
    refine adds_innerTables?_of_forall (fun key inner hmem text htable => ?_) hwrite
    cases htables key inner hmem with
    | @intro depth _ hnodup hvalues _ =>
      have hlength : path.length < nestingLimit := by omega
      refine adds_tableLines? hnodup hlength hvalues (fun text htext => ?_) htable
      refine ih key inner hmem ?_ htext
      rw [List.length_append, List.length_singleton]
      omega

/-! ### Documents -/

theorem isKeyStart_of_valueLines? {entries : List (String × Data)}
    (h : valueLines? entries = some text) : ∀ c ∈ text.head?, isKeyStart c = true := by
  induction entries generalizing text with
  | nil =>
    cases h
    rintro c ⟨⟩
  | cons entry entries ih =>
    obtain ⟨key, d⟩ := entry
    rcases valueLines?_cons_cases h with ⟨-, value, more, -, -, rfl⟩ | ⟨-, hmore⟩
    · obtain ⟨c, tail, hkey, hc⟩ := exists_keyChars_eq key.toList
      rw [hkey]
      rintro d ⟨⟩
      exact hc
    · exact ih hmore

theorem newline_of_innerTables? {entries : List (String × Data)}
    (h : innerTables? path entries = some text) : ∀ c ∈ text.head?, c = '\n' := by
  induction entries generalizing text with
  | nil =>
    cases h
    rintro c ⟨⟩
  | cons entry entries ih =>
    obtain ⟨key, d⟩ := entry
    obtain ⟨table, more, htable, hmore, rfl⟩ := exists_of_innerTables?_cons h
    cases d with
    | table inner =>
      obtain ⟨values, tables, -, -, rfl⟩ := exists_of_tableLines? htable
      rintro c ⟨⟩
      rfl
    | _ =>
      cases htable
      exact ih hmore

/-- What is written does not begin with a byte order mark. -/
theorem head?_write? {entries : List (String × Data)} {values tables : List Char}
    (hvalues : valueLines? entries = some values)
    (htables : innerTables? path entries = some tables) :
    ∀ cs, values ++ tables ≠ '\ufeff' :: cs := by
  intro cs hmark
  cases values with
  | nil =>
    rw [List.nil_append] at hmark
    have hnewline := newline_of_innerTables? htables '\ufeff' (by rw [hmark]; rfl)
    exact absurd hnewline (by decide)
  | cons c values =>
    cases hmark
    have hstart := isKeyStart_of_valueLines? hvalues '\ufeff' rfl
    exact absurd hstart (by decide)

/-- **A document is read back**, with the entries of every table in the order in which they are
written. -/
theorem read?_of_write? {depth : Nat} {entries : List (String × Data)} {s : String}
    (htabled : Tabled depth entries) (hdepth : depth ≤ nestingLimit + 1)
    (hwrite : write? entries = some s) : read? s = some (.table (arrange entries)) := by
  obtain ⟨values, hvalueLines, hwrite⟩ := Option.bind_eq_some_iff.1 hwrite
  obtain ⟨tables, htableLines, hwrite⟩ := Option.bind_eq_some_iff.1 hwrite
  cases hwrite
  have hadds : Adds [] (slotsOf (arrangeTables entries)) tables :=
    adds_innerTables? htabled (by rw [List.length_nil]; omega) htableLines
  cases htabled with
  | intro hnodup hvalues htables =>
  have hkeys := nodup_keys_slotsOf hnodup
  have hinline : addAll? (slotsOf (inlineEntries entries)) [] =
      some (slotsOf (inlineEntries entries)) :=
    addAll?_eq (hkeys.sublist ((List.sublist_append_left _ _).map Prod.fst))
  have hvalueLeads : Leads ⟨[], []⟩ values ⟨slotsOf (inlineEntries entries), []⟩ :=
    leads_valueLines? hvalues hvalueLines rfl hinline
  obtain ⟨current, htableLeads⟩ :=
    hadds ⟨slotsOf (inlineEntries entries), []⟩ _ rfl (addAll?_eq hkeys)
  have hlines := (hvalueLeads.append htableLeads).lines?_eq
  have hread : read? (String.ofList (values ++ tables)) =
      (lines? ((values ++ tables).length + 1) ⟨[], []⟩ (values ++ tables)).map fun draft =>
        .table (finish draft.entries) := by
    rw [read?, String.toList_ofList]
    split
    · rename_i heq
      exact absurd heq (head?_write? hvalueLines htableLines _)
    · rfl
  rw [hread, hlines, Option.map_some, ← slotsOf_append, finish_slotsOf, arrange]

end SearchQuery.Toml
