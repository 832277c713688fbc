import SearchQuery.Pass.Basic
import SearchQuery.Context
import SearchQuery.Text.Alphabetic

/-!
# Adding the other forms of words

A word becomes the group of itself, its form without the accented letter, and its derived forms
with less weight. Bounds of ranges and fuzzy words are left alone, and so are words without
letters.

## Forms and weights

The word comes first and has no weight of its own. The form without the accent is another spelling
and has none either. Derived forms have the weight that the settings say, or share the weight one
among them; a form that is the word itself is left out before they are counted.

## Engines

What derives forms is a parameter, one engine for a language, and nothing is assumed of it. The
engine is that of the language of the query, which is known before any pass runs. Without one only
the accent is considered.

## Main definitions

* `Inflector` — what derives forms
* `InflectionSettings.forms` — the forms of a word that are added
* `InflectionSettings.expand` — a word with its forms
* `Pass.inflection` — the pass

## Main results

* `InflectionSettings.transform_cases` — what becomes of a node
-/

namespace SearchQuery

/-- The other forms of a word, most likely first. -/
abbrev Inflector := String → List String

/-- The letter that stands for an accented one, and any other character as it is. -/
def plainLetter (c : Char) : Char :=
  if c = 'ё' then 'е' else if c = 'Ё' then 'Е' else c

namespace InflectionSettings

/-- The weight of each of so many derived forms. -/
def formScore (s : InflectionSettings) (count : Nat) : Decimal :=
  if s.decreasing then .reciprocal count else s.score

/-- The form without the accented letter, if the word has it. -/
def accentForms (s : InflectionSettings) (value : String) : List Expr :=
  let plain := value.toList.map plainLetter
  if s.accent && plain != value.toList then [.word (String.ofList plain)] else []

/-- The derived forms, with their weight. -/
def derivedForms (s : InflectionSettings) (inflect? : Option Inflector) (value : String) :
    List Expr :=
  match inflect? with
  | some inflect =>
    if s.enabled then
      let derived := (inflect value).filter (· != value)
      derived.map fun form => (Expr.word form).boosted (s.formScore derived.length)
    else []
  | none => []

/-- The forms of a word that are added. A word without letters has none. -/
def forms (s : InflectionSettings) (inflect? : Option Inflector) (value : String) : List Expr :=
  if value.toList.any Text.isAlphabetic then
    s.accentForms value ++ s.derivedForms inflect? value
  else []

/-- A word with its forms as alternatives. -/
def expand (s : InflectionSettings) (inflect? : Option Inflector) (value : String) : Expr :=
  match s.forms inflect? value with
  | [] => .word value
  | forms => .synonyms (.word value :: forms)

/-- A form that is added is a word, or a word with a weight. -/
theorem exists_of_mem_forms {s : InflectionSettings} {inflect? : Option Inflector} {value : String}
    {d : Expr} (h : d ∈ s.forms inflect? value) :
    ∃ form, d = .word form ∨ ∃ score, d = (Expr.word form).boosted score := by
  rw [forms] at h
  split at h
  · rcases List.mem_append.1 h with h | h
    · rw [accentForms] at h
      split at h
      · exact ⟨_, .inl (List.mem_singleton.1 h)⟩
      · cases h
    · simp only [derivedForms] at h
      split at h
      · split at h
        · obtain ⟨form, -, rfl⟩ := List.mem_map.1 h
          exact ⟨form, .inr ⟨_, rfl⟩⟩
        · cases h
      · cases h
  · cases h

/-- A word without further forms stays as it is. -/
theorem expand_cases (s : InflectionSettings) (inflect? : Option Inflector) (value : String) :
    s.expand inflect? value = .word value ∨
      s.expand inflect? value = .synonyms (.word value :: s.forms inflect? value) := by
  rw [expand]
  split
  · exact .inl rfl
  · exact .inr rfl

/-- A word is expanded by the engine of the language of the query. -/
def transform (s : InflectionSettings) (engines : NameTable Inflector) : Transform Context :=
  fun e _ c =>
    match e with
    | .word value => (.final (s.expand (c.language.bind engines.get?) value), c)
    | .range .. | .fuzzy .. => (.final e, c)
    | e => (.keep e, c)

/-- What becomes of a node. -/
theorem transform_cases (s : InflectionSettings) (engines : NameTable Inflector) (e : Expr)
    (parents : List Kind) (c : Context) :
    (∃ value, e = .word value ∧ s.transform engines e parents c =
      (.final (s.expand (c.language.bind engines.get?) value), c)) ∨
    (e.kind = .range ∨ e.kind = .fuzzy) ∧ s.transform engines e parents c = (.final e, c) ∨
    e.kind ∉ [.word, .range, .fuzzy] ∧ s.transform engines e parents c = (.keep e, c) := by
  cases e with
  | word value => exact .inl ⟨value, rfl, rfl⟩
  | range => exact .inr (.inl ⟨.inl rfl, rfl⟩)
  | fuzzy => exact .inr (.inl ⟨.inr rfl, rfl⟩)
  | _ => exact .inr (.inr ⟨by simp [Expr.kind], rfl⟩)

theorem transform_descends (s : InflectionSettings) (engines : NameTable Inflector) :
    (s.transform engines).Descends fun _ e => e.weight :=
  Transform.descends_of_keep_self fun e parents c e' h => by
    obtain ⟨value, -, hstep⟩ | ⟨-, hstep⟩ | ⟨-, hstep⟩ := s.transform_cases engines e parents c <;>
      rw [hstep] at h
    · cases h
    · cases h
    · exact (Outcome.keep.inj h).symm

end InflectionSettings

/-- The pass that adds the other forms of words. -/
def Pass.inflection (s : InflectionSettings) (engines : NameTable Inflector) : Pass Context :=
  .ofTransform .parentsFirst (s.transform engines) (s.transform_descends engines)

end SearchQuery
