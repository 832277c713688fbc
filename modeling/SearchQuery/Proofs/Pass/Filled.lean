import SearchQuery.Proofs.Pass.Preservation

/-!
# Passes leave no empty groups

Each of the ten passes makes filled trees of filled trees, so any passes in any order do. A group
that a pass makes has as many operands as the group it comes from, or is made of a node with one of
its forms, or holds a synonym set, and no synonym set is empty.

The names of fields come along: those that a pass gives to a field are in the tree already, or are
accepted as valid, or stand in the settings of the pass.

Removing nodes is not the business of a single pass: a group that loses its last operand is lost
when its children are put back, in `Expr.hereditary_filledIn`.

## Main results

* `Expr.hereditary_filledIn` — filled trees may be taken apart and put together again
* `Settings.passes_preserve_filledIn` — the passes that settings ask for, with any engines, make
  filled trees of filled trees, and search in no other fields than before, apart from those that
  the settings name
-/

namespace SearchQuery

open SearchQuery.Expr

variable {names : String → Prop}

theorem Expr.hereditary_filledIn : Hereditary (FilledIn names) where
  child h hc := h.child hc
  mapChildren he hf h := by
    obtain ⟨hoperands, hbelow⟩ := mapChildren_spec h
    refine ⟨⟨hoperands, fun name hname => ?_⟩, fun d hd => ?_⟩
    · rw [(head_mapChildren h).2] at hname
      exact he.root.2 name hname
    · obtain ⟨c, hc, t, hd⟩ := hbelow d hd
      exact hf c hc t d hd

/-! ### Nodes that pass or go -/

/-- A transformation that replaces no node by another one preserves every property. -/
theorem Transform.preserves_of_tree?_eq {σ : Type} {f : Transform σ} {P : Expr → Prop}
    (h : ∀ e parents s e', (f e parents s).1.tree? = some e' → e' = e) : f.Preserves P :=
  fun _ _ _ _ he htree => h _ _ _ _ htree ▸ he

theorem SortSettings.preserves (s : SortSettings) (P : Expr → Prop) : s.transform.Preserves P :=
  Transform.preserves_of_tree?_eq fun e parents c e' h => by
    obtain ⟨field, -, hstep⟩ | ⟨-, hstep⟩ := s.transform_cases e parents c <;> rw [hstep] at h
    · cases h
    · exact (Option.some.inj h).symm

theorem MarkerSettings.preserves (s : MarkerSettings) (P : Expr → Prop) :
    s.transform.Preserves P :=
  Transform.preserves_of_tree?_eq fun e parents c e' h => by
    obtain ⟨value, -, -, hstep⟩ | ⟨-, hstep⟩ := s.transform_cases e parents c <;> rw [hstep] at h
    · cases h
    · exact (Option.some.inj h).symm

/-! ### Nodes that are replaced -/

theorem FieldSettings.preserves_filledIn {s : FieldSettings}
    (hvalid : ∀ name, s.isValid name = true → names name) :
    s.transform.Preserves (FilledIn names) := by
  intro e e' parents c he h
  obtain ⟨name, body, rfl, ⟨hname, hstep⟩ | ⟨-, -, hstep⟩ | ⟨-, -, hstep⟩⟩ | ⟨-, hstep⟩ :=
    s.transform_cases e parents c <;> rw [hstep] at h <;> cases h
  · exact filledIn_field.2 ⟨hvalid _ hname, (filledIn_field.1 he).2⟩
  · simpa using (filledIn_field.1 he).2
  · exact he

theorem IdentifierSettings.filledIn_of_wildcard? {s : IdentifierSettings} (hfield : names s.field)
    {word : String} {parents : List Kind} {e' : Expr} (h : s.wildcard? word parents = some e') :
    e'.FilledIn names := by
  obtain ⟨beginning, -, rfl | rfl⟩ := exists_of_wildcard? h <;> simp [patternSearch, hfield]

theorem IdentifierSettings.preserves_filledIn {s : IdentifierSettings} (hfield : names s.field) :
    s.transform.Preserves (FilledIn names) := by
  intro e e' parents c he h
  obtain ⟨doi, -, -, hstep⟩ | ⟨value, d, -, hwildcard, hstep⟩ | ⟨-, -, hstep⟩ :=
    s.transform_cases e parents c <;> rw [hstep] at h <;> cases h
  · simp [search, hfield]
  · exact filledIn_of_wildcard? hfield hwildcard
  · exact he

theorem Expr.FilledIn.corrected {e : Expr} (he : e.FilledIn names) (correct? : Corrector) :
    (e.corrected correct?).FilledIn names := by
  obtain h | ⟨value, better, -, -, -, h⟩ := e.corrected_cases correct? <;> rw [h]
  · exact he
  · simp

theorem SpellingSettings.preserves_filledIn (s : SpellingSettings) (correct? : Corrector) :
    (s.transform correct?).Preserves (FilledIn names) := by
  intro e e' parents c he h
  obtain ⟨-, hstep⟩ | ⟨-, ⟨operands, rfl, hstep⟩ | ⟨value, -, -, hstep⟩ | ⟨-, -, hstep⟩⟩ :=
    s.transform_cases correct? e parents c <;> rw [hstep] at h <;> cases h
  · exact he
  · obtain ⟨hne, hoperands⟩ := filledIn_group.1 he
    refine filledIn_group.2 ⟨by simpa using hne, fun d hd => ?_⟩
    obtain ⟨o, ho, rfl⟩ := List.mem_map.1 hd
    exact (hoperands o ho).corrected correct?
  · exact he.corrected correct?
  · exact he

/-- A term's set has a phrase, because no synonym set is empty. -/
theorem SynonymSets.filledIn_of_expand? {s : SynonymSets} {term : String} {e' : Expr}
    (h : s.expand? term = some e') : e'.FilledIn names := by
  obtain ⟨set, hset, rfl⟩ := Option.map_eq_some_iff.1 h
  have hne : set ≠ [] := s.ne_nil set (get?_eq_some_iff.1 hset).1
  simpa using hne

theorem SynonymSets.filledIn_of_alternatives? {s : SynonymSets} {e e' : Expr}
    (h : s.alternatives? e = some e') : e'.FilledIn names := by
  cases e with
  | word | phrase => exact filledIn_of_expand? h
  | _ => cases h

theorem SynonymSets.preserves_filledIn (s : SynonymSets) :
    s.transform.Preserves (FilledIn names) := by
  intro e e' parents c he h
  obtain ⟨group, -, hgroup, hstep⟩ | ⟨-, hstep⟩ := s.transform_cases e parents c <;>
    rw [hstep] at h <;> cases h
  · exact filledIn_of_alternatives? hgroup
  · exact he

namespace InflectionSettings

variable (s : InflectionSettings) (inflect? : Option Inflector) (value : String)

theorem filledIn_of_mem_forms {e : Expr} (h : e ∈ s.forms inflect? value) :
    e.FilledIn names := by
  obtain ⟨form, rfl | ⟨score, rfl⟩⟩ := exists_of_mem_forms h <;> simp

theorem filledIn_expand : (s.expand inflect? value).FilledIn names := by
  obtain h | h := s.expand_cases inflect? value <;> rw [h]
  · exact filledIn_word
  · refine filledIn_synonyms.2 ⟨List.cons_ne_nil _ _, fun d hd => ?_⟩
    rcases List.mem_cons.1 hd with rfl | hd
    · exact filledIn_word
    · exact s.filledIn_of_mem_forms inflect? value hd

theorem preserves_filledIn (engines : NameTable Inflector) :
    (s.transform engines).Preserves (FilledIn names) := by
  intro e e' parents c he h
  obtain ⟨value, -, hstep⟩ | ⟨-, hstep⟩ | ⟨-, hstep⟩ := s.transform_cases engines e parents c <;>
    rw [hstep] at h <;> cases h
  · exact s.filledIn_expand _ _
  · exact he
  · exact he

end InflectionSettings

theorem ExactPhraseSettings.filledIn_clause {s : ExactPhraseSettings}
    (hfield : ∀ name, s.field = some name → names name) (phrase : String) (count : Nat) :
    (s.clause phrase count).FilledIn names := by
  rw [clause]
  split
  · rename_i name hname
    simp [hfield name hname]
  · simp

theorem ExactPhraseSettings.preserves_filledIn {s : ExactPhraseSettings}
    (hfield : ∀ name, s.field = some name → names name) :
    s.transform.Preserves (FilledIn names) := by
  intro e e' parents c he h
  obtain ⟨operands, phrase, rfl, -, -, -, hstep⟩ | ⟨-, hstep⟩ := s.transform_cases e parents c <;>
    rw [hstep] at h <;> cases h
  · refine filledIn_group.2 ⟨by simp, fun d hd => ?_⟩
    rcases List.mem_append.1 hd with hd | hd
    · exact (filledIn_group.1 he).2 d hd
    · rw [List.mem_singleton.1 hd]
      exact filledIn_clause hfield _ _
  · exact he

/-! ### Shapes -/

/-- A node that moves from around a group to around each of its operands leaves as many operands. -/
theorem filledIn_group_map {wrap : Expr → Expr}
    (hwrap : ∀ {e}, e.FilledIn names → (wrap e).FilledIn names) {es : List Expr}
    (h : es ≠ [] ∧ ∀ e ∈ es, e.FilledIn names) : (group (es.map wrap)).FilledIn names := by
  refine filledIn_group.2 ⟨by simpa using h.1, fun d hd => ?_⟩
  obtain ⟨e, he, rfl⟩ := List.mem_map.1 hd
  exact hwrap (h.2 e he)

theorem Expr.FilledIn.pushField {e : Expr} {name : String} (hname : names name)
    (he : e.FilledIn names) : (e.pushField name).FilledIn names := by
  have hwrap {d : Expr} (hd : d.FilledIn names) : (field name d).FilledIn names :=
    filledIn_field.2 ⟨hname, hd⟩
  cases e with
  | group operands => exact filledIn_group_map hwrap (filledIn_group.1 he)
  | synonyms alternatives =>
    exact filledIn_synonyms.2
      (filledIn_group.1 (filledIn_group_map hwrap (filledIn_synonyms.1 he)))
  | plus inner => exact filledIn_plus.2 (hwrap (filledIn_plus.1 he))
  | minus inner => exact filledIn_minus.2 (hwrap (filledIn_minus.1 he))
  | boost body score => exact filledIn_boost.2 (hwrap (filledIn_boost.1 he))
  | _ => exact hwrap he

theorem BackendShape.filledIn_of_shapePhrase {value : String} {e' : Expr}
    (h : (shapePhrase value).tree? = some e') : e'.FilledIn names := by
  rw [shapePhrase] at h
  split at h <;> cases h
  · exact filledIn_word
  · exact filledIn_phrase

theorem BackendShape.preserves_filledIn : transform.Preserves (FilledIn names) := by
  intro e e' parents c he h
  simp only [transform] at h
  split at h
  · split at h
    · cases h
      exact he
    · exact filledIn_of_shapePhrase h
  · cases h
    exact filledIn_group_map filledIn_plus.2 (filledIn_group.1 (filledIn_plus.1 he))
  · cases h
    exact filledIn_group_map filledIn_minus.2 (filledIn_group.1 (filledIn_minus.1 he))
  · cases h
    exact filledIn_group_map filledIn_minus.2 (filledIn_synonyms.1 (filledIn_minus.1 he))
  · cases h
    obtain ⟨hname, hbody⟩ := filledIn_field.1 he
    exact hbody.pushField hname
  · cases h
    exact he

theorem Expr.FilledIn.of_mem_operands {e d : Expr} (h : e.FilledIn names) (hd : d ∈ e.operands) :
    d.FilledIn names := by
  cases e with
  | group es => exact (filledIn_group.1 h).2 d hd
  | _ => exact List.mem_singleton.1 hd ▸ h

/-- Any other operand stays, and an inner group brings at least one. -/
theorem filledIn_group_spliceGroups {es : List Expr} (h : (group es).FilledIn names) :
    (group (spliceGroups es)).FilledIn names := by
  obtain ⟨hne, hes⟩ := filledIn_group.1 h
  refine filledIn_group.2 ⟨spliceGroups_ne_nil hne fun e he => (hes e he).root.1, fun d hd => ?_⟩
  obtain ⟨e, he, hd⟩ := mem_spliceGroups.1 hd
  exact (hes e he).of_mem_operands hd

theorem Simplification.preserves_filledIn : transform.Preserves (FilledIn names) := by
  intro e e' parents c he h
  simp only [transform] at h
  split at h
  · cases h
    exact filledIn_group_spliceGroups he
  · split at h
    · cases h
      exact filledIn_boost.1 he
    · cases h
      exact he
  · cases h
    exact he

/-! ### All passes -/

/-- The names that settings give to fields, or accept for them. -/
structure Settings.NamesIn (s : Settings) (names : String → Prop) : Prop where
  /-- The names that are accepted. -/
  valid : ∀ name, s.fields.isValid name = true → names name
  /-- The name of the field of identifiers. -/
  identifiers : names s.identifiers.field
  /-- The name of the field in which phrases are searched for. -/
  exactPhrase : ∀ name, s.exactPhrase.field = some name → names name

/-- **The pass of a stage makes filled trees of filled trees**, and keeps to the names of fields
that are in the tree or in the settings. -/
theorem Settings.pass?_preserves_filledIn {s : Settings} {engines : Engines} {stage : TreeStage}
    (hnames : s.NamesIn names) {p : Pass Context} (h : s.pass? engines stage = some p) :
    p.Preserves (FilledIn names) := by
  refine Pass.preserves_of_transform hereditary_filledIn ?_
  cases stage with
  | spelling =>
    obtain ⟨correct?, -, rfl⟩ := Option.map_eq_some_iff.1 h
    exact s.spelling.preserves_filledIn correct?
  | sorting => cases h; exact s.sorting.preserves _
  | fields => cases h; exact FieldSettings.preserves_filledIn hnames.valid
  | markers => cases h; exact s.markers.preserves _
  | identifiers => cases h; exact IdentifierSettings.preserves_filledIn hnames.identifiers
  | synonyms => cases h; exact s.synonyms.preserves_filledIn
  | inflection => cases h; exact s.inflection.preserves_filledIn engines.inflectors
  | exactPhrase => cases h; exact ExactPhraseSettings.preserves_filledIn hnames.exactPhrase
  | backendShape => cases h; exact BackendShape.preserves_filledIn
  | simplification => cases h; exact Simplification.preserves_filledIn

/-- **So do all passes that settings ask for**, whichever they are and in whatever order. -/
theorem Settings.passes_preserve_filledIn {s : Settings} (hnames : s.NamesIn names)
    (engines : Engines) : ∀ p ∈ s.passes engines, p.Preserves (FilledIn names) := by
  intro p hp
  obtain ⟨stage, -, hstage⟩ := List.mem_filterMap.1 hp
  exact pass?_preserves_filledIn hnames hstage

/-- Every name may be given to a field. -/
theorem Settings.namesIn_true (s : Settings) : s.NamesIn fun _ => True :=
  ⟨fun _ _ => trivial, trivial, fun _ _ => trivial⟩

/-- The passes that settings ask for make filled trees of filled trees. -/
theorem Settings.passes_preserve_filled (s : Settings) (engines : Engines) :
    ∀ p ∈ s.passes engines, p.Preserves Filled := by
  intro p hp e e' c he h
  exact (passes_preserve_filledIn s.namesIn_true engines p hp he.filledIn h).filled

end SearchQuery
