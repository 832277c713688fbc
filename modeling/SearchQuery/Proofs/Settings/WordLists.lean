import Mathlib.Algebra.BigOperators.Group.List.Basic
import Mathlib.Algebra.GroupWithZero.Nat
import Mathlib.Data.List.Nodup
import SearchQuery.Proofs.Settings.Resolving

/-!
# What word lists add to a dictionary

The word lists that settings name are read one after the other, and the counts of their lines are
added to the dictionary that the settings have themselves. Counts are added up word by word, so it
does not matter which list comes first, and what a dictionary gets can be told from the lines alone.

## Lists that are refused

One invalid line is enough to refuse all settings. The lists are read in the order in which they are
named, and only after the synonym lists: what is wrong with those is what the error is about. The
rest of the settings is looked at later, so nothing else in it hides an invalid line.

## Main definitions

* `WordList.tokens` — the words of a line before a hash
* `WordList.IsInvalid` — lines that are no entries
* `WordList.counts` — what lines say about how often a word occurs
* `WordList.IsSum` — a dictionary with what lines say added
* `WordList.IsFirstInvalid` — the place of the first invalid line of some files

## Main results

* `WordList.line_eq_invalid_iff`, `WordList.entry?_line` — what a line holds
* `WordList.isSum_addTo` — what a dictionary holds after entries are added
* `SettingsSource.resolve_of_words` — word lists change nothing but the dictionary
* `SettingsSource.resolve_wordFiles` — which dictionary settings get, and when they get none
-/

namespace SearchQuery

/-- A table in ascending order is known by what it holds under each name. -/
theorem NameTable.eq_of_get?_eq {α : Type} {s t : NameTable α} (hs : s.Sorted) (ht : t.Sorted)
    (h : ∀ name, s.get? name = t.get? name) : s = t := by
  have hperm : s.Perm t :=
    (List.perm_ext_iff_of_nodup (hs.nodup.of_map _) (ht.nodup.of_map _)).2 fun entry => by
      rw [NameTable.mem_iff_get?_eq_some hs, NameTable.mem_iff_get?_eq_some ht, h]
  exact hperm.eq_of_pairwise (fun _ _ _ _ hab hba => absurd hba (String.lt_asymm hab)) hs ht

namespace WordList

variable {s word : String} {lines : List String} {inline dictionary : NameTable Nat}

/-! ### Lines -/

/-- The words of a line before a hash. -/
def tokens (s : String) : List (List Char) := Text.words (Text.upTo '#' s).toList

/-- A line is invalid if its second word is no number below 2⁶⁴, or if it has a third one. -/
def IsInvalid (s : String) : Prop :=
  (∃ count ∈ (tokens s)[1]?, count? count = none) ∨ 2 < (tokens s).length

instance (s : String) : Decidable (IsInvalid s) := inferInstanceAs (Decidable (_ ∨ _))

/-- The word that a line is about, in lowercase. -/
def name? (s : String) : Option String :=
  (tokens s).head?.map fun first => String.ofList (Text.lowercase first)

/-- How often a line says that its word occurs. -/
def written (s : String) : Nat :=
  match (tokens s)[1]? with
  | none => 1
  | some count => (count? count).getD 0

/-- What lines say about how often a word occurs. -/
def counts (word : String) (lines : List String) : List Nat :=
  (lines.filter fun s => name? s = some word).map written

theorem line_eq_invalid_iff : line s = .invalid ↔ IsInvalid s := by
  rw [line, IsInvalid, show Text.words (Text.upTo '#' s).toList = tokens s from rfl]
  rcases tokens s with _ | ⟨first, _ | ⟨count, _ | ⟨third, rest⟩⟩⟩
  · simp
  · simp
  · cases hcount : count? count <;> simp [hcount]
  · simp

/-- A line that is not invalid holds an entry for the word that it is about. -/
theorem entry?_line (h : ¬ IsInvalid s) :
    Line.entry? (line s) = (name? s).map fun word => (word, written s) := by
  rw [IsInvalid] at h
  rw [line, name?, written, show Text.words (Text.upTo '#' s).toList = tokens s from rfl]
  rcases htokens : tokens s with _ | ⟨first, _ | ⟨count, _ | ⟨third, rest⟩⟩⟩
  · rfl
  · rfl
  · cases hcount : count? count with
    | none => simp [htokens, hcount] at h
    | some n => simp [Line.entry?, hcount]
  · simp [htokens] at h

/-! ### Lists -/

/-- What lines hold, without those that hold no entry. -/
def entries (lines : List String) : List (String × Nat) :=
  lines.filterMap fun s => Line.entry? (line s)

theorem entriesFrom_eq_ok_iff {number : Nat} {lines : List Line} {found : List (String × Nat)} :
    entriesFrom number lines = .ok found ↔
      (∀ l ∈ lines, l ≠ .invalid) ∧ found = lines.filterMap Line.entry? := by
  induction lines generalizing number found with
  | nil => simp [entriesFrom, eq_comm]
  | cons l lines ih =>
    cases l with
    | blank => simp [entriesFrom, map_eq_ok_iff, ih, Line.entry?, List.filterMap_cons]
    | entry word count =>
      simp [entriesFrom, map_eq_ok_iff, ih, Line.entry?, and_assoc, @eq_comm _ found]
    | invalid => simp [entriesFrom]

/-- A word list is read if no line is invalid, and its entries are what the lines hold. -/
theorem parse?_eq_ok_iff {text : String} {found : List (String × Nat)} :
    parse? text = .ok found ↔
      (∀ s ∈ Text.linesOf text, ¬ IsInvalid s) ∧ found = entries (Text.linesOf text) := by
  rw [parse?, entriesFrom_eq_ok_iff, List.forall_mem_map, List.filterMap_map]
  simp only [ne_eq, line_eq_invalid_iff]
  rfl

/-- A word list is refused for its first invalid line. -/
theorem parse?_eq_error_iff_exists {text : String} {n : Nat} :
    parse? text = .error n ↔
      ∃ earlier s later, Text.linesOf text = earlier ++ s :: later ∧ n = earlier.length + 1 ∧
        IsInvalid s ∧ ∀ s' ∈ earlier, ¬ IsInvalid s' := by
  rw [parse?_eq_error_iff]
  constructor
  · rintro ⟨earlier, later, heq, rfl, hearlier⟩
    obtain ⟨front, back, hlines, rfl, hback⟩ := List.map_eq_append_iff.1 heq
    obtain ⟨s, rest, rfl, hs, -⟩ := List.map_eq_cons_iff.1 hback
    refine ⟨front, s, rest, hlines, ?_, line_eq_invalid_iff.1 hs, fun s' hs' h => ?_⟩
    · rw [List.length_map, Nat.add_comm]
    · exact hearlier _ (List.mem_map_of_mem hs') (line_eq_invalid_iff.2 h)
  · rintro ⟨earlier, s, later, heq, rfl, hs, hearlier⟩
    refine ⟨earlier.map line, later.map line, ?_, ?_, List.forall_mem_map.2 fun s' hs' h => ?_⟩
    · rw [heq, List.map_append, List.map_cons, line_eq_invalid_iff.2 hs]
    · rw [List.length_map, Nat.add_comm]
    · exact hearlier s' hs' (line_eq_invalid_iff.1 h)

/-! ### Dictionaries -/

/-- How often a word occurs by some counts, if there are any. -/
def total? : List Nat → Option Nat
  | [] => none
  | n :: counts => some (n + counts.sum)

theorem total?_of_ne_nil {counts : List Nat} (h : counts ≠ []) :
    total? counts = some counts.sum := by
  cases counts with
  | nil => exact absurd rfl h
  | cons n counts => rw [total?, List.sum_cons]

theorem total?_perm {a b : List Nat} (h : a.Perm b) : total? a = total? b := by
  by_cases ha : a = []
  · subst ha
    rw [h.nil_eq]
  · have hb : b ≠ [] := fun hb => ha (List.Perm.eq_nil (hb ▸ h))
    rw [total?_of_ne_nil ha, total?_of_ne_nil hb, h.sum_eq]

theorem foldl_add_eq_total? (counts : List Nat) (known : Option Nat) :
    counts.foldl (fun sum n => some (sum.getD 0 + n)) known = total? (known.toList ++ counts) := by
  induction counts generalizing known with
  | nil => cases known <;> simp [total?]
  | cons n counts ih =>
    rw [List.foldl_cons, ih]
    cases known <;> simp [total?, Nat.add_assoc]

/-- A dictionary is the sum of another one and of what lines say: a word has as many occurrences as
both give it together, and there are no other words. -/
structure IsSum (inline : NameTable Nat) (lines : List String) (dictionary : NameTable Nat) :
    Prop where
  /-- The words are in ascending order. -/
  sorted : dictionary.Sorted
  /-- What the dictionary says about a word. -/
  get? : ∀ word, dictionary.get? word = total? ((inline.get? word).toList ++ counts word lines)

/-- There is only one sum, in whatever order the lines are. -/
theorem IsSum.eq_of_perm {lines' : List String} {dictionary' : NameTable Nat}
    (h : IsSum inline lines dictionary) (h' : IsSum inline lines' dictionary')
    (hperm : lines.Perm lines') : dictionary = dictionary' :=
  NameTable.eq_of_get?_eq h.sorted h'.sorted fun word => by
    rw [h.get?, h'.get?]
    exact total?_perm (((hperm.filter _).map _).append_left _)

theorem filter_entries (h : ∀ s ∈ lines, ¬ IsInvalid s) :
    ((entries lines).filter fun entry => entry.1 = word).map (·.2) = counts word lines := by
  induction lines with
  | nil => rfl
  | cons s lines ih =>
    rw [List.forall_mem_cons] at h
    have hrest := ih h.2
    rw [entries, counts] at hrest
    rw [entries, counts, List.filterMap_cons, entry?_line h.1]
    cases hname : name? s with
    | none => simpa [hname] using hrest
    | some name => by_cases hword : name = word <;> simp [hname, hword, hrest]

/-- **What a dictionary holds after entries are added** is the sum of the dictionary and of what the
lines say. -/
theorem isSum_addTo (hsorted : inline.Sorted) (h : ∀ s ∈ lines, ¬ IsInvalid s) :
    IsSum inline lines (addTo inline (entries lines)) where
  sorted := sorted_addTo hsorted _
  get? word := by
    rw [addTo, NameTable.get?_foldl_update hsorted, ← foldl_add_eq_total?,
      ← filter_entries h, List.foldl_map]

/-! ### Files -/

variable {files : List (String × String)} {path : String} {n : Nat}

/-- Some line of some file is invalid. The files are given by their paths and texts. -/
def SomeInvalid (files : List (String × String)) : Prop :=
  ∃ file ∈ files, ∃ s ∈ Text.linesOf file.2, IsInvalid s

instance (files : List (String × String)) : Decidable (SomeInvalid files) :=
  inferInstanceAs (Decidable (∃ file ∈ files, ∃ s ∈ Text.linesOf file.2, IsInvalid s))

/-- Line number `n` of the file at `path`, the first one being line one, is the first invalid line
of the first file that has one. -/
def IsFirstInvalid (files : List (String × String)) (path : String) (n : Nat) : Prop :=
  ∃ before text after, files = before ++ (path, text) :: after ∧ ¬ SomeInvalid before ∧
    ∃ earlier s later, Text.linesOf text = earlier ++ s :: later ∧ n = earlier.length + 1 ∧
      IsInvalid s ∧ ∀ s' ∈ earlier, ¬ IsInvalid s'

end WordList

namespace SettingsSource

open WordList

variable {source : SettingsSource} {tree : FileTree} {directory : Option String}
  {files : List (String × String)} {path : String} {n : Nat}

/-- The words of a file whose text is known. -/
def fileWords (file : String × String) : Except SettingsError (List (String × Nat)) :=
  (parse? file.2).mapError (.invalidWordListLine file.1)

theorem mapM_wordFile (hfiles : source.wordFiles.mapM (dataFile tree directory) = .ok files) :
    source.wordFiles.mapM (wordFile tree directory) = files.mapM fileWords :=
  mapM_bind_eq hfiles

/-- The words of a file can be read if no line is invalid. -/
theorem fileWords_eq_ok_iff {file : String × String} {words : List (String × Nat)} :
    fileWords file = .ok words ↔
      (∀ s ∈ Text.linesOf file.2, ¬ IsInvalid s) ∧ words = entries (Text.linesOf file.2) := by
  rw [← parse?_eq_ok_iff, fileWords]
  cases parse? file.2 <;> simp [Except.mapError]

theorem mapM_fileWords_of_valid (h : ¬ SomeInvalid files) :
    files.mapM fileWords = .ok (files.map fun file => entries (Text.linesOf file.2)) := by
  rw [mapM_eq_ok_iff, List.map_map]
  exact List.map_congr_left fun file hfile =>
    fileWords_eq_ok_iff.2 ⟨fun s hs hinvalid => h ⟨file, hfile, s, hs, hinvalid⟩, rfl⟩

/-- Words cannot be read only because of an invalid line. -/
theorem exists_of_fileWords_eq_error {file : String × String} {err : SettingsError}
    (h : fileWords file = .error err) :
    ∃ n, err = .invalidWordListLine file.1 n ∧ parse? file.2 = .error n := by
  rw [fileWords] at h
  cases hparse : parse? file.2 with
  | ok entries => rw [hparse] at h; cases h
  | error n => rw [hparse] at h; cases h; exact ⟨n, rfl, rfl⟩

/-- The words of some files are refused for the first invalid line of the first file that has
one. -/
theorem mapM_fileWords_eq_error_iff {err : SettingsError} :
    files.mapM fileWords = .error err ↔
      ∃ path n, err = .invalidWordListLine path n ∧ IsFirstInvalid files path n := by
  rw [mapM_eq_error_iff]
  constructor
  · rintro ⟨before, ⟨path, text⟩, after, rfl, hbefore, h⟩
    obtain ⟨n, rfl, hparse⟩ := exists_of_fileWords_eq_error h
    refine ⟨path, n, rfl, before, text, after, rfl, ?_, parse?_eq_error_iff_exists.1 hparse⟩
    rintro ⟨file, hfile, s, hs, hinvalid⟩
    obtain ⟨words, hwords⟩ := hbefore file hfile
    exact (fileWords_eq_ok_iff.1 hwords).1 s hs hinvalid
  · rintro ⟨path, n, rfl, before, text, after, rfl, hbefore, hfirst⟩
    refine ⟨before, (path, text), after, rfl, fun file hfile =>
      ⟨_, fileWords_eq_ok_iff.2 ⟨fun s hs hinvalid => ?_, rfl⟩⟩, ?_⟩
    · exact hbefore ⟨file, hfile, s, hs, hinvalid⟩
    · rw [fileWords, parse?_eq_error_iff_exists.2 hfirst]
      rfl

/-- Some line is invalid exactly if there is a first one. -/
theorem exists_isFirstInvalid_iff :
    (∃ path n, IsFirstInvalid files path n) ↔ SomeInvalid files := by
  constructor
  · rintro ⟨path, n, before, text, after, rfl, -, earlier, s, later, hlines, -, hs, -⟩
    refine ⟨(path, text), by simp, s, ?_, hs⟩
    simp [hlines]
  · intro h
    by_contra hnone
    have hread : ∃ words, files.mapM fileWords = .ok words := by
      cases hwords : files.mapM fileWords with
      | ok words => exact ⟨words, rfl⟩
      | error err =>
        obtain ⟨path, n, -, hfirst⟩ := mapM_fileWords_eq_error_iff.1 hwords
        exact absurd ⟨path, n, hfirst⟩ hnone
    obtain ⟨words, hwords⟩ := hread
    obtain ⟨file, hfile, s, hs, hinvalid⟩ := h
    obtain ⟨found, -, hfound⟩ := exists_mem_of_mapM hwords hfile
    exact (fileWords_eq_ok_iff.1 hfound).1 s hs hinvalid

/-- **Word lists change nothing but the dictionary**, as long as the words in them can be read. -/
theorem resolve_of_words {words : List (List (String × Nat))}
    (h : source.wordFiles.mapM (wordFile tree directory) = .ok words) :
    source.resolve tree directory =
      (resolve { source with wordFiles := [] } tree directory).map fun s =>
        { s with spelling.dictionary :=
            addTo source.settings.spelling.dictionary words.flatten } := by
  rw [resolve, resolve]
  dsimp only
  rw [h]
  simp only [map_bind_eq, List.mapM_nil]
  rfl

theorem score_ne_invalidWordListLine {key : String} {written : Option String}
    {default : Option Decimal} :
    score key written default ≠ .error (.invalidWordListLine path n) := by
  rw [score.eq_def]
  split
  · simp
  · split <;> simp

/-- Settings whose synonym files can be read are refused for an invalid line if and only if the
words of the word lists are. -/
theorem resolve_eq_invalidWordListLine_iff {lists : List (List (List String))}
    (hlists : source.synonymFiles.mapM (synonymFile tree directory) = .ok lists) :
    source.resolve tree directory = .error (.invalidWordListLine path n) ↔
      source.wordFiles.mapM (wordFile tree directory) = .error (.invalidWordListLine path n) := by
  rw [resolve]
  dsimp only
  rw [hlists]
  constructor
  · intro h
    rcases bind_eq_error_iff.1 h with h | ⟨lists, -, h⟩
    · cases h
    rcases bind_eq_error_iff.1 h with h | ⟨words, -, h⟩
    · exact h
    rcases bind_eq_error_iff.1 h with h | ⟨inflectionScore, -, h⟩
    · exact absurd h score_ne_invalidWordListLine
    rcases bind_eq_error_iff.1 h with h | ⟨synonyms, -, h⟩
    · cases hsets : SynonymSets.ofLists? (source.synonymLists ++ lists.flatten) <;>
        simp [hsets, Except.mapError] at h
    rcases bind_eq_error_iff.1 h with h | ⟨identifierScore, -, h⟩
    · exact absurd h score_ne_invalidWordListLine
    exact absurd (eq_error_of_bind_pure h) score_ne_invalidWordListLine
  · exact fun h => bind_error h _

/-- If no line is invalid, the word lists make the dictionary the sum of all lines and of what it
was before. -/
theorem exists_isSum_of_valid (hsorted : source.settings.spelling.dictionary.Sorted)
    (hfiles : source.wordFiles.mapM (dataFile tree directory) = .ok files)
    (hvalid : ¬ SomeInvalid files) :
    ∃ dictionary,
      IsSum source.settings.spelling.dictionary (files.flatMap fun file => Text.linesOf file.2)
        dictionary ∧
      source.resolve tree directory =
        (resolve { source with wordFiles := [] } tree directory).map fun s =>
          { s with spelling.dictionary := dictionary } := by
  have hwords := (mapM_wordFile hfiles).trans (mapM_fileWords_of_valid hvalid)
  refine ⟨_, ?_, resolve_of_words hwords⟩
  have hflatten : (files.map fun file => entries (Text.linesOf file.2)).flatten =
      entries (files.flatMap fun file => Text.linesOf file.2) := by
    rw [entries, List.filterMap_flatMap]
    rfl
  rw [hflatten]
  refine isSum_addTo hsorted fun s hs hinvalid => ?_
  obtain ⟨file, hfile, hs⟩ := List.mem_flatMap.1 hs
  exact hvalid ⟨file, hfile, s, hs, hinvalid⟩

/-- **Which dictionary settings get**, and when they get none. If no line of the word lists is
invalid, the settings are those without word lists, with a dictionary that is the sum of their own
one and of all lines, whatever the order of the files is. Otherwise, if the synonym files can be
read, the settings are refused for the first invalid line. -/
theorem resolve_wordFiles (hsorted : source.settings.spelling.dictionary.Sorted)
    (hfiles : source.wordFiles.mapM (dataFile tree directory) = .ok files) :
    (¬ SomeInvalid files →
      ∃ dictionary,
        IsSum source.settings.spelling.dictionary (files.flatMap fun file => Text.linesOf file.2)
          dictionary ∧
        ∀ order, order.Perm source.wordFiles →
          resolve { source with wordFiles := order } tree directory =
            (resolve { source with wordFiles := [] } tree directory).map fun s =>
              { s with spelling.dictionary := dictionary }) ∧
    ∀ lists, source.synonymFiles.mapM (synonymFile tree directory) = .ok lists →
      ((∃ path n, source.resolve tree directory = .error (.invalidWordListLine path n)) ↔
        SomeInvalid files) ∧
      ∀ path n, source.resolve tree directory = .error (.invalidWordListLine path n) ↔
        IsFirstInvalid files path n := by
  refine ⟨fun hvalid => ?_, fun lists hlists => ?_⟩
  · obtain ⟨dictionary, hsum, -⟩ := exists_isSum_of_valid hsorted hfiles hvalid
    refine ⟨dictionary, hsum, fun order horder => ?_⟩
    obtain ⟨files', hfiles', hperm⟩ := exists_mapM_of_perm horder.symm hfiles
    have hvalid' : ¬ SomeInvalid files' := fun ⟨file, hfile, hs⟩ =>
      hvalid ⟨file, hperm.mem_iff.2 hfile, hs⟩
    obtain ⟨dictionary', hsum', hresolve⟩ :=
      @exists_isSum_of_valid { source with wordFiles := order } tree directory files' hsorted
        hfiles' hvalid'
    rw [hsum.eq_of_perm hsum' (hperm.flatMap_right _)]
    exact hresolve
  · have hfirst (path : String) (n : Nat) :
        source.resolve tree directory = .error (.invalidWordListLine path n) ↔
          IsFirstInvalid files path n := by
      rw [resolve_eq_invalidWordListLine_iff hlists, mapM_wordFile hfiles,
        mapM_fileWords_eq_error_iff]
      refine ⟨fun ⟨_, _, heq, h⟩ => ?_, fun h => ⟨path, n, rfl, h⟩⟩
      cases heq
      exact h
    refine ⟨?_, hfirst⟩
    simp only [hfirst]
    exact exists_isFirstInvalid_iff

/-- Two word lists, and one with a count that is no number. -/
def listsOfEngines : FileTree where
  root := .directory [
    ("words", .file "# engines\nengine 120\nEngine 5\nkolobok\n".toUTF8),
    ("found", .file "search +300 # often\n\nengine\n".toUTF8),
    ("broken", .file "engine 120\nsearch many\n".toUTF8)]

/-- Settings that know one word and name word lists. -/
def naming (wordFiles : List String) : SettingsSource where
  settings := { spelling := { dictionary := [("search", 10)] } }
  wordFiles

/-- The counts of a word add up over all lists, and a list is refused for its second line. -/
theorem resolve_wordFiles_engine :
    (∃ settings, (naming ["words", "found"]).resolve listsOfEngines none = .ok settings ∧
      settings.spelling.dictionary.get? "engine" = some 126 ∧
      settings.spelling.dictionary.get? "search" = some 310 ∧
      settings.spelling.dictionary.get? "often" = none) ∧
    (naming ["words", "broken"]).resolve listsOfEngines none =
      .error (.invalidWordListLine "/broken" 2) := by
  have hsorted : NameTable.Sorted [("search", 10)] := List.pairwise_singleton _ _
  have hfiles : (naming ["words", "found"]).wordFiles.mapM (dataFile listsOfEngines none) =
      .ok [("/words", "# engines\nengine 120\nEngine 5\nkolobok\n"),
        ("/found", "search +300 # often\n\nengine\n")] := by rfl
  have hbroken : (naming ["words", "broken"]).wordFiles.mapM (dataFile listsOfEngines none) =
      .ok [("/words", "# engines\nengine 120\nEngine 5\nkolobok\n"),
        ("/broken", "engine 120\nsearch many\n")] := by rfl
  constructor
  · obtain ⟨dictionary, hsum, hresolve⟩ := (resolve_wordFiles hsorted hfiles).1 (by decide)
    refine ⟨_, hresolve _ (.refl _), ?_, ?_, ?_⟩
    · exact (hsum.get? "engine").trans (by decide)
    · exact (hsum.get? "search").trans (by decide)
    · exact (hsum.get? "often").trans (by decide)
  · refine (((resolve_wordFiles hsorted hbroken).2 [] rfl).2 "/broken" 2).2 ?_
    refine ⟨[("/words", _)], _, [], rfl, by decide, ["engine 120"], "search many", [], ?_⟩
    decide

end SettingsSource

end SearchQuery
