import SearchQuery.Proofs.Syntax.Grammar
import SearchQuery.Proofs.Tree.Nodes

/-!
# Trees without empty groups

A group without operands asks for nothing, and its document is the one that matches everything. A
tree is filled when it has no such group and no group without alternatives, at any depth. What is
read from a text is filled.

## With the names of fields

The passes and the compiler treat a search in a field like any other node, except that they look at
its name. `Expr.FilledIn` is therefore the notion that is carried through them: a filled tree whose
fields have names with a property. A filled tree is one for the property that every name has.

## Main definitions

* `Expr.Filled` — no node of the tree is an empty group
* `Expr.FilledIn` — the tree is filled, and the names of its fields have a property

## Main results

* `Derives.filled` — what tokens derive is filled
-/

namespace SearchQuery

namespace Expr

variable {e : Expr} {names : String → Prop}

/-- No node of the tree is a group without operands or without alternatives. -/
def Filled (e : Expr) : Prop := e.All HasOperands

/-- The tree is filled, and every field that it searches in has one of the names. -/
def FilledIn (names : String → Prop) (e : Expr) : Prop :=
  e.All fun d => d.HasOperands ∧ ∀ name, d.fieldName? = some name → names name

theorem FilledIn.filled (h : e.FilledIn names) : e.Filled := h.imp fun _ hd => hd.1

theorem Filled.filledIn (h : e.Filled) : e.FilledIn fun _ => True :=
  h.imp fun _ hd => ⟨hd, fun _ _ => trivial⟩

theorem FilledIn.mono {names' : String → Prop} (hsub : ∀ name, names name → names' name)
    (h : e.FilledIn names) : e.FilledIn names' :=
  h.imp fun _ hd => ⟨hd.1, fun name hname => hsub name (hd.2 name hname)⟩

section Constructors

variable {v name : String} {body left right : Expr} {es : List Expr} {il ir : Bool}
  {score : Decimal} {distance : UInt32}

@[simp] theorem filledIn_word : (word v).FilledIn names := by
  simp [FilledIn, HasOperands, fieldName?]

@[simp] theorem filledIn_phrase : (phrase v).FilledIn names := by
  simp [FilledIn, HasOperands, fieldName?]

@[simp] theorem filledIn_regex : (regex v).FilledIn names := by
  simp [FilledIn, HasOperands, fieldName?]

@[simp] theorem filledIn_doi : (doi v).FilledIn names := by
  simp [FilledIn, HasOperands, fieldName?]

@[simp] theorem filledIn_url : (url v).FilledIn names := by
  simp [FilledIn, HasOperands, fieldName?]

@[simp] theorem filledIn_group :
    (group es).FilledIn names ↔ es ≠ [] ∧ ∀ e ∈ es, e.FilledIn names := by
  simp [FilledIn, HasOperands, fieldName?]

@[simp] theorem filledIn_synonyms :
    (synonyms es).FilledIn names ↔ es ≠ [] ∧ ∀ e ∈ es, e.FilledIn names := by
  simp [FilledIn, HasOperands, fieldName?]

@[simp] theorem filledIn_field :
    (field name body).FilledIn names ↔ names name ∧ body.FilledIn names := by
  simp [FilledIn, HasOperands, fieldName?]

@[simp] theorem filledIn_range :
    (range left right il ir).FilledIn names ↔ left.FilledIn names ∧ right.FilledIn names := by
  simp [FilledIn, HasOperands, fieldName?]

@[simp] theorem filledIn_boost : (boost body score).FilledIn names ↔ body.FilledIn names := by
  simp [FilledIn, HasOperands, fieldName?]

@[simp] theorem filledIn_fuzzy : (fuzzy body score).FilledIn names ↔ body.FilledIn names := by
  simp [FilledIn, HasOperands, fieldName?]

@[simp] theorem filledIn_proximity :
    (proximity body distance).FilledIn names ↔ body.FilledIn names := by
  simp [FilledIn, HasOperands, fieldName?]

@[simp] theorem filledIn_plus : (plus body).FilledIn names ↔ body.FilledIn names := by
  simp [FilledIn, HasOperands, fieldName?]

@[simp] theorem filledIn_minus : (minus body).FilledIn names ↔ body.FilledIn names := by
  simp [FilledIn, HasOperands, fieldName?]

end Constructors

@[simp] theorem filledIn_boosted {score : Decimal} :
    (e.boosted score).FilledIn names ↔ e.FilledIn names :=
  filledIn_boost

end Expr

/-! ### What is read -/

theorem Bound.filledIn {t : Token} {e : Expr} (h : Bound t e) : e.FilledIn fun _ => True := by
  cases h <;> simp

/-- What filled units make together is filled. -/
theorem Beside.filledIn {names : String → Prop} {e f g : Expr} (h : Beside e f g)
    (he : e.FilledIn names) (hf : f.FilledIn names) : g.FilledIn names := by
  cases h with
  | group => simpa [he] using (Expr.filledIn_group.1 hf).2
  | other => simp [he, hf]

theorem Derives.filledIn {r : Rule} {ts : List Token} {e : Expr} (h : Derives r ts e) :
    e.FilledIn fun _ => True := by
  induction h with
  | alone _ ih | bare _ ih | groupInParens _ _ _ ih => exact ih
  | beside _ _ hg ihe ihf => exact hg.filledIn ihe ihf
  | range _ hl _ hr _ => exact Expr.filledIn_range.2 ⟨hl.filledIn, hr.filledIn⟩
  | boost _ _ ih | plus _ _ ih | minus _ _ ih | otherInParens _ _ _ _ ih | field _ _ _ ih =>
    simpa using ih
  | fuzzy | proximity | word | phrase | regex | url | doi | reserved => simp

/-- **What tokens derive is filled.** -/
theorem Derives.filled {r : Rule} {ts : List Token} {e : Expr} (h : Derives r ts e) :
    e.Filled :=
  h.filledIn.filled

end SearchQuery
