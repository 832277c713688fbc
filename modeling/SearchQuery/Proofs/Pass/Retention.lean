import SearchQuery.Proofs.Pass.Preservation
import SearchQuery.Proofs.Text.Words

/-!
# Terms that passes keep

A tree asks for a word if the word, or the phrase of it, stands in the tree and not below an
exclusion or a range. Each of the ten passes keeps what a tree asks for: it may put the word into
other nodes, quote it or take its quotes off, or add to it, but some node with the word stays, and
so does every node around it.

## Why words and phrases

A synonym set replaces a word by phrases, the word's own among them, and the shape that the search
engine takes makes a word of a phrase of one word. So a word may become a phrase and a word again,
and what is carried through the passes is that there is one or the other.

## Taking directives out

The pass that takes sort directives out of the query loses the words in them. Only for this pass
there are nodes that count as gone beforehand, so `Expr.AsksOutside` names such nodes, and
`Expr.Asks` is the case without them.

## Main definitions

* `Expr.AsksOutside`, `Expr.Asks` — a word is asked for, with or without nodes that count as gone
* `Transform.Retains`, `Pass.Retains` — a word that is asked for stays

## Main results

* `Pass.retains_of_parentsFirst`, `Pass.retains_of_childrenFirst` — what one node keeps, a pass
  keeps
* `Settings.passes_retain` — the usual passes in the usual order keep a word, if rejected fields
  become words and the word is neither in a directive nor a marker nor the beginning of an
  identifier
-/

namespace SearchQuery

/-- Whether terms below a node of the kind are not asked for. -/
def Kind.hides : Kind → Bool
  | minus | range => true
  | _ => false

namespace Expr

variable {gone : Expr → Prop} {w : String} {e : Expr}

/-- The node is the word, or the phrase of it. -/
def IsTerm (w : String) (e : Expr) : Prop := e = word w ∨ e = phrase w

theorem IsTerm.value?_isSome (h : e.IsTerm w) : e.value?.isSome := by
  rcases h with rfl | rfl <;> rfl

/-- The tree asks for the word at a node that is not below one that counts as gone. -/
def AsksOutside (gone : Expr → Prop) (w : String) (e : Expr) : Prop :=
  e.Reaches (fun d => d.kind.hides = true ∨ gone d) (IsTerm w)

/-- The tree asks for the word. -/
def Asks (w : String) (e : Expr) : Prop := e.Reaches (fun d => d.kind.hides = true) (IsTerm w)

theorem AsksOutside.asks (h : e.AsksOutside gone w) : e.Asks w :=
  h.imp (fun _ => .inl) fun _ hd => hd

theorem Asks.outside (h : e.Asks w) : e.AsksOutside (fun _ => False) w :=
  h.imp (fun _ hd => hd.resolve_right id) fun _ hd => hd

section Constructors

variable {v name : String} {body left right : Expr} {es : List Expr} {il ir : Bool}
  {score : Decimal} {distance : UInt32}

@[simp] theorem asks_word : (word v).Asks w ↔ v = w := by
  simp [Asks, reaches_iff (e := word v), kind, Kind.hides, IsTerm, children]

@[simp] theorem asks_phrase : (phrase v).Asks w ↔ v = w := by
  simp [Asks, reaches_iff (e := phrase v), kind, Kind.hides, IsTerm, children]

@[simp] theorem asks_regex : ¬ (regex v).Asks w := by
  simp [Asks, reaches_iff (e := regex v), IsTerm, children]

@[simp] theorem asks_doi : ¬ (doi v).Asks w := by
  simp [Asks, reaches_iff (e := doi v), IsTerm, children]

@[simp] theorem asks_url : ¬ (url v).Asks w := by
  simp [Asks, reaches_iff (e := url v), IsTerm, children]

@[simp] theorem asks_field : (field name body).Asks w ↔ body.Asks w := by
  simp [Asks, reaches_iff (e := field name body), kind, Kind.hides, IsTerm, children]

@[simp] theorem asks_group : (group es).Asks w ↔ ∃ e ∈ es, e.Asks w := by
  simp [Asks, reaches_iff (e := group es), kind, Kind.hides, IsTerm, children]

@[simp] theorem asks_synonyms : (synonyms es).Asks w ↔ ∃ e ∈ es, e.Asks w := by
  simp [Asks, reaches_iff (e := synonyms es), kind, Kind.hides, IsTerm, children]

@[simp] theorem asks_range : ¬ (range left right il ir).Asks w :=
  fun h => h.not_skips rfl

@[simp] theorem asks_boost : (boost body score).Asks w ↔ body.Asks w := by
  simp [Asks, reaches_iff (e := boost body score), kind, Kind.hides, IsTerm, children]

@[simp] theorem asks_fuzzy : (fuzzy body score).Asks w ↔ body.Asks w := by
  simp [Asks, reaches_iff (e := fuzzy body score), kind, Kind.hides, IsTerm, children]

@[simp] theorem asks_proximity : (proximity body distance).Asks w ↔ body.Asks w := by
  simp [Asks, reaches_iff (e := proximity body distance), kind, Kind.hides, IsTerm, children]

@[simp] theorem asks_plus : (plus body).Asks w ↔ body.Asks w := by
  simp [Asks, reaches_iff (e := plus body), kind, Kind.hides, IsTerm, children]

@[simp] theorem asks_minus : ¬ (minus body).Asks w := fun h => h.not_skips rfl

end Constructors

end Expr

open SearchQuery.Expr

/-- The replacement has the first property if it is looked at, and the second if it is left
alone. -/
def Outcome.Satisfies (looked done : Expr → Prop) : Outcome → Prop
  | keep e => looked e
  | final e => done e
  | remove => False

variable {σ : Type} {gone : Expr → Prop} {w : String}

/-- A node that asks for the word is replaced by one that does. -/
def Transform.Retains (gone : Expr → Prop) (w : String) (f : Transform σ) : Prop :=
  ∀ ⦃e : Expr⦄ ⦃parents : List Kind⦄ ⦃s : σ⦄, e.AsksOutside gone w →
    (f e parents s).1.Satisfies (AsksOutside gone w) (Asks w)

namespace Pass

variable {p : Pass σ}

/-- Something is left of a tree that asks for the word, and asks for it. -/
def Retains (gone : Expr → Prop) (w : String) (p : Pass σ) : Prop :=
  ∀ ⦃e : Expr⦄ ⦃s : σ⦄, e.AsksOutside gone w → ∃ e', (p.run e s).1 = some e' ∧ e'.Asks w

/-! ### One pass -/

/-- A term of a node that is looked at stays with the node: it is one of the children that are
left, or the node itself. -/
theorem exists_asks_mapChildren {e : Expr} {s : σ}
    {f : (c : Expr) → c ∈ e.children → σ → Option Expr × σ} (he : e.AsksOutside gone w)
    (hf : ∀ c hc t, c.AsksOutside gone w → ∃ d, (f c hc t).1 = some d ∧ d.Asks w) :
    ∃ e', (e.mapChildren f s).1 = some e' ∧ e'.Asks w := by
  cases he with
  | here hskip hterm =>
    rw [mapChildren_of_value?_isSome hterm.value?_isSome]
    exact ⟨e, rfl, .here (fun h => hskip (.inl h)) hterm⟩
  | there hskip hc h =>
    have hkind : e.kind ≠ .range := fun hkind => hskip (.inl (by rw [hkind]; rfl))
    obtain ⟨e', he', d, hd, hasks⟩ :=
      exists_mapChildren_of_mem (s := s) hkind hc fun hc t => hf _ hc t h
    refine ⟨e', he', .there (fun hhides => ?_) hd hasks⟩
    rw [(head_mapChildren he').1] at hhides
    exact hskip (.inl hhides)

theorem parentsFirst_asks (hp : p.transform.Retains gone w) {parents : List Kind} {e : Expr}
    {s : σ} (he : e.AsksOutside gone w) :
    ∃ e', (p.parentsFirst parents e s).1 = some e' ∧ e'.Asks w := by
  have hstep := @hp e parents s he
  rw [parentsFirst]
  split
  · exact ⟨e, rfl, he.asks⟩
  split
  · rename_i hremove
    rw [hremove] at hstep
    exact hstep.elim
  · rename_i d t hfinal
    rw [hfinal] at hstep
    exact ⟨d, rfl, hstep⟩
  · rename_i d t hkeep
    rw [hkeep] at hstep
    refine exists_asks_mapChildren hstep fun c hc t hasks => ?_
    have hrank : p.rank (parents ++ [d.kind]) c < p.rank parents e :=
      p.descends e parents s d (by rw [hkeep]) c hc
    exact parentsFirst_asks hp hasks
termination_by p.rank parents e

theorem childrenFirst_asks (hp : p.transform.Retains (fun _ => False) w) {parents : List Kind}
    {e : Expr} {s : σ} (he : e.Asks w) :
    ∃ e', (p.childrenFirst parents e s).1 = some e' ∧ e'.Asks w := by
  have hmap : ∃ e', (e.mapChildren
      (fun c _ s => p.childrenFirst (parents ++ [e.kind]) c s) s).1 = some e' ∧ e'.Asks w := by
    refine exists_asks_mapChildren he.outside fun c hc t hasks => ?_
    have hsize : sizeOf c < sizeOf e := sizeOf_lt_of_mem_children hc
    exact childrenFirst_asks hp hasks.asks
  rw [childrenFirst]
  split
  · exact ⟨e, rfl, he⟩
  obtain ⟨d, hd, hasks⟩ := hmap
  split
  · rename_i hnone
    rw [hnone] at hd
    cases hd
  · rename_i d' t hsome
    rw [hsome] at hd
    cases hd
    have hstep := @hp d parents t hasks.outside
    cases houtcome : (p.transform d parents t).1 with
    | keep d' =>
      rw [houtcome] at hstep
      exact ⟨d', congrArg Outcome.tree? houtcome, hstep.asks⟩
    | final d' =>
      rw [houtcome] at hstep
      exact ⟨d', congrArg Outcome.tree? houtcome, hstep⟩
    | remove =>
      rw [houtcome] at hstep
      exact hstep.elim
termination_by sizeOf e

/-- **What one node keeps, a pass keeps** that sees parents first. -/
theorem retains_of_parentsFirst (horder : p.order = .parentsFirst)
    (hp : p.transform.Retains gone w) : p.Retains gone w := by
  intro e s he
  rw [run, horder]
  exact parentsFirst_asks hp he

/-- **What one node keeps, a pass keeps** that sees children first. -/
theorem retains_of_childrenFirst (horder : p.order = .childrenFirst)
    (hp : p.transform.Retains (fun _ => False) w) : p.Retains (fun _ => False) w := by
  intro e s he
  rw [run, horder]
  exact childrenFirst_asks hp he.asks

end Pass

theorem runPasses_retain {ps : List (Pass Context)}
    (hps : ∀ p ∈ ps, p.Retains (fun _ => False) w) {e : Expr} (he : e.Asks w) (c : Context) :
    ∃ e', (runPasses ps (some e) c).1 = some e' ∧ e'.Asks w := by
  induction ps generalizing e c with
  | nil => exact ⟨e, rfl, he⟩
  | cons p ps ih =>
    obtain ⟨d, hd, hasks⟩ := @hps p List.mem_cons_self e c he.outside
    rw [runPasses_cons, hd]
    exact ih (fun q hq => hps q (List.mem_cons_of_mem p hq)) hasks _

/-! ### Nodes that go -/

theorem SortSettings.retains (s : SortSettings) (w : String) :
    s.transform.Retains (fun e => (s.directive? e).isSome) w := by
  intro e parents c he
  obtain ⟨field, hdirective, -⟩ | ⟨-, hstep⟩ := s.transform_cases e parents c
  · exact absurd (.inr (Option.isSome_of_mem hdirective)) he.not_skips
  · rw [hstep]
    exact he

theorem MarkerSettings.retains {s : MarkerSettings} (hmarker : s.isMarker w = false) :
    s.transform.Retains (fun _ => False) w := by
  intro e parents c he
  obtain ⟨value, rfl, hvalue, -⟩ | ⟨-, hstep⟩ := s.transform_cases e parents c
  · rw [asks_word.1 he.asks, hmarker] at hvalue
    cases hvalue
  · rw [hstep]
    exact he

/-! ### Nodes that are replaced -/

/-- A rejected field becomes a group of its name and the search, unless it is dropped. -/
theorem FieldSettings.retains {s : FieldSettings} (hstrict : s.strict = false) :
    s.transform.Retains (fun _ => False) w := by
  intro e parents c he
  obtain ⟨name, body, rfl, ⟨-, hstep⟩ | ⟨-, hstrict', -⟩ | ⟨-, -, hstep⟩⟩ | ⟨-, hstep⟩ :=
    s.transform_cases e parents c
  · rw [hstep]
    exact (asks_field.2 (asks_field.1 he.asks)).outside
  · cases hstrict.symm.trans hstrict'
  · rw [hstep]
    exact (asks_group.2 ⟨body, by simp, asks_field.1 he.asks⟩).outside
  · rw [hstep]
    exact he

theorem IdentifierSettings.retains {s : IdentifierSettings}
    (hpattern : Doi.pattern? (Text.lowercase w.toList) = none) :
    s.transform.Retains (fun _ => False) w := by
  intro e parents c he
  have hasks := he.asks
  obtain ⟨doi, hdoi, -, -⟩ | ⟨value, d, rfl, hwildcard, -⟩ | ⟨-, -, hstep⟩ :=
    s.transform_cases e parents c
  · cases e with
    | doi | url => simp at hasks
    | _ => cases hdoi
  · obtain ⟨beginning, hbeginning, -⟩ := exists_of_wildcard? hwildcard
    rw [asks_word.1 hasks, hpattern] at hbeginning
    cases hbeginning
  · rw [hstep]
    exact he

theorem Expr.Asks.corrected {e : Expr} (he : e.Asks w) (correct? : Corrector) :
    (e.corrected correct?).Asks w := by
  obtain h | ⟨value, better, rfl, -, -, h⟩ := e.corrected_cases correct? <;> rw [h]
  · exact he
  · exact asks_synonyms.2 ⟨word value, by simp, he⟩

theorem SpellingSettings.retains (s : SpellingSettings) (correct? : Corrector) :
    (s.transform correct?).Retains (fun _ => False) w := by
  intro e parents c he
  have hasks := he.asks
  obtain ⟨-, hstep⟩ | ⟨-, ⟨operands, rfl, hstep⟩ | ⟨value, -, -, hstep⟩ | ⟨-, -, hstep⟩⟩ :=
    s.transform_cases correct? e parents c <;> rw [hstep]
  · exact hasks
  · obtain ⟨o, ho, hword⟩ := asks_group.1 hasks
    exact (asks_group.2 ⟨_, List.mem_map_of_mem ho, hword.corrected correct?⟩).outside
  · exact hasks.corrected correct?
  · exact he

/-- The term of a set is one of the phrases of the set. -/
theorem SynonymSets.asks_of_expand? {s : SynonymSets} {e' : Expr} (hw : unescape w = w)
    (h : s.expand? w = some e') : e'.Asks w := by
  obtain ⟨set, hset, rfl⟩ := Option.map_eq_some_iff.1 h
  have hmem : w ∈ set := by
    rw [hw] at hset
    exact (get?_eq_some_iff.1 hset).2
  exact asks_synonyms.2 ⟨phrase w, List.mem_map_of_mem hmem, asks_phrase.2 rfl⟩

theorem SynonymSets.retains (s : SynonymSets) (hw : unescape w = w) :
    s.transform.Retains (fun _ => False) w := by
  intro e parents c he
  have hasks := he.asks
  obtain ⟨group, -, hgroup, hstep⟩ | ⟨-, hstep⟩ := s.transform_cases e parents c <;> rw [hstep]
  · cases e with
    | word value =>
      rw [asks_word.1 hasks] at hgroup
      exact asks_of_expand? hw hgroup
    | phrase value =>
      rw [asks_phrase.1 hasks] at hgroup
      exact asks_of_expand? hw hgroup
    | _ => cases hgroup
  · exact he

theorem InflectionSettings.asks_expand (s : InflectionSettings) (inflect? : Option Inflector) :
    (s.expand inflect? w).Asks w := by
  obtain h | h := s.expand_cases inflect? w <;> rw [h]
  · exact asks_word.2 rfl
  · exact asks_synonyms.2 ⟨word w, List.mem_cons_self, asks_word.2 rfl⟩

theorem InflectionSettings.retains (s : InflectionSettings) (engines : NameTable Inflector) :
    (s.transform engines).Retains (fun _ => False) w := by
  intro e parents c he
  obtain ⟨value, rfl, hstep⟩ | ⟨-, hstep⟩ | ⟨-, hstep⟩ := s.transform_cases engines e parents c <;>
    rw [hstep]
  · rw [asks_word.1 he.asks]
    exact s.asks_expand _
  · exact he.asks
  · exact he

theorem ExactPhraseSettings.retains (s : ExactPhraseSettings) :
    s.transform.Retains (fun _ => False) w := by
  intro e parents c he
  obtain ⟨operands, phrase, rfl, -, -, -, hstep⟩ | ⟨-, hstep⟩ := s.transform_cases e parents c <;>
    rw [hstep]
  · obtain ⟨o, ho, hword⟩ := asks_group.1 he.asks
    exact asks_group.2 ⟨o, List.mem_append_left _ ho, hword⟩
  · exact he

/-! ### Shapes -/

@[simp] theorem Expr.asks_pushField {e : Expr} {name : String} :
    (e.pushField name).Asks w ↔ e.Asks w := by
  cases e <;> simp [Expr.pushField]

/-- A phrase of the word alone is the word, and signs go down with the operands. -/
theorem BackendShape.retains (hw : IsSteady w) : transform.Retains (fun _ => False) w := by
  intro e parents c he
  have hasks := he.asks
  simp only [transform]
  split
  · split
    · exact he
    · rw [asks_phrase.1 hasks, shapePhrase, hw.wordCount, hw.trimmed]
      exact (asks_word.2 rfl).outside
  · obtain ⟨o, ho, hword⟩ := asks_group.1 (asks_plus.1 hasks)
    exact (asks_group.2 ⟨_, List.mem_map_of_mem ho, asks_plus.2 hword⟩).outside
  · exact (asks_minus hasks).elim
  · exact (asks_minus hasks).elim
  · exact (asks_pushField.2 (asks_field.1 hasks)).outside
  · exact he

theorem Expr.Asks.exists_mem_operands {e : Expr} (h : e.Asks w) : ∃ d ∈ e.operands, d.Asks w := by
  cases e with
  | group es => exact asks_group.1 h
  | _ => exact ⟨_, List.mem_singleton_self _, h⟩

theorem Simplification.retains : transform.Retains (fun _ => False) w := by
  intro e parents c he
  have hasks := he.asks
  simp only [transform]
  split
  · obtain ⟨o, ho, hword⟩ := asks_group.1 hasks
    obtain ⟨d, hd, hword⟩ := hword.exists_mem_operands
    exact (asks_group.2 ⟨d, mem_spliceGroups.2 ⟨o, ho, hd⟩, hword⟩).outside
  · split
    · exact (asks_boost.1 hasks).outside
    · exact he
  · exact he

/-! ### The usual passes -/

/-- The word is none that a pass takes away or rewrites. -/
structure Settings.Leaves (s : Settings) (w : String) : Prop where
  /-- It is one word without escapes. -/
  steady : IsSteady w
  /-- It is no marker. -/
  marker : s.markers.isMarker w = false
  /-- It is not the beginning of an identifier with an asterisk. -/
  pattern : Doi.pattern? (Text.lowercase w.toList) = none

/-- Every pass but the one that takes directives out keeps a word that it does not rewrite. -/
theorem Settings.pass?_retains {s : Settings} {engines : Engines}
    (hstrict : s.fields.strict = false) (hw : s.Leaves w) {stage : TreeStage}
    (hstage : stage ≠ .sorting) {p : Pass Context} (h : s.pass? engines stage = some p) :
    p.Retains (fun _ => False) w := by
  cases stage with
  | sorting => exact absurd rfl hstage
  | fields =>
    cases h
    exact Pass.retains_of_parentsFirst rfl (FieldSettings.retains hstrict)
  | markers =>
    cases h
    exact Pass.retains_of_parentsFirst rfl (MarkerSettings.retains hw.marker)
  | identifiers =>
    cases h
    exact Pass.retains_of_parentsFirst rfl (IdentifierSettings.retains hw.pattern)
  | spelling =>
    obtain ⟨correct?, -, rfl⟩ := Option.map_eq_some_iff.1 h
    exact Pass.retains_of_parentsFirst rfl (s.spelling.retains correct?)
  | synonyms =>
    cases h
    exact Pass.retains_of_parentsFirst rfl (s.synonyms.retains hw.steady.unescape)
  | inflection =>
    cases h
    exact Pass.retains_of_parentsFirst rfl (s.inflection.retains engines.inflectors)
  | exactPhrase =>
    cases h
    exact Pass.retains_of_parentsFirst rfl s.exactPhrase.retains
  | backendShape =>
    cases h
    exact Pass.retains_of_parentsFirst rfl (BackendShape.retains hw.steady)
  | simplification =>
    cases h
    exact Pass.retains_of_childrenFirst rfl Simplification.retains

/-- **The usual passes in the usual order keep a word** that is not in a directive and that none of
them rewrites. -/
theorem Settings.passes_retain {s : Settings} (engines : Engines)
    (hstages : s.stages.tree = TreeStage.all) (hstrict : s.fields.strict = false)
    (hw : s.Leaves w) {e : Expr}
    (he : e.AsksOutside (fun d => (s.sorting.directive? d).isSome) w) (c : Context) :
    ∃ e', (runPasses (s.passes engines) (some e) c).1 = some e' ∧ e'.Asks w := by
  have hpasses : s.passes engines =
      .sorting s.sorting :: TreeStage.all.tail.filterMap (s.pass? engines) := by
    rw [passes, hstages]
    rfl
  have hsorting := Pass.retains_of_parentsFirst (p := .sorting s.sorting) rfl
    (s.sorting.retains w)
  obtain ⟨d, hd, hasks⟩ := @hsorting e c he
  rw [hpasses, runPasses_cons, hd]
  refine runPasses_retain (fun p hp => ?_) hasks _
  obtain ⟨stage, hstage, hp⟩ := List.mem_filterMap.1 hp
  refine pass?_retains hstrict hw ?_ hp
  rintro rfl
  exact absurd hstage (by decide)

end SearchQuery
