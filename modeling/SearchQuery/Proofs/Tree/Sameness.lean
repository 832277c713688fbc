import SearchQuery.Expr.Equality
import SearchQuery.Proofs.Decimal.Size
import SearchQuery.Proofs.Document.Operands

/-!
# Trees that are the same query

Two trees are the same query if they differ in nothing but the places of their decimal numbers. So
each tree has a normal form, with the normal form of every number in it, and two trees are the same
exactly if their normal forms are equal. Whatever is made of a tree normalizes the numbers that it
shows: the text of a tree and its document are those of the normal form.

## Main definitions

* `Expr.normalize` — the tree with the normal form of every number

## Main results

* `Expr.same_iff_normalize_eq` — trees that are the same have the same normal form
* `Expr.text_normalize`, `Expr.compile_normalize` — the text and the document of the normal form
-/

namespace SearchQuery.Expr

/-! ### Normal forms -/

mutual

/-- The tree with the normal form of every decimal number. -/
def normalize : Expr → Expr
  | word v => word v
  | phrase v => phrase v
  | regex v => regex v
  | doi v => doi v
  | url v => url v
  | field name body => field name body.normalize
  | group operands => group (normalizeAll operands)
  | synonyms alternatives => synonyms (normalizeAll alternatives)
  | range left right il ir => range left.normalize right.normalize il ir
  | boost body score => boost body.normalize score.normalize
  | fuzzy term slop => fuzzy term.normalize slop.normalize
  | proximity term slop => proximity term.normalize slop
  | plus inner => plus inner.normalize
  | minus inner => minus inner.normalize

/-- The trees with the normal form of every decimal number. -/
def normalizeAll : List Expr → List Expr
  | [] => []
  | e :: es => e.normalize :: normalizeAll es

end

theorem normalizeAll_eq_map (es : List Expr) : normalizeAll es = es.map normalize := by
  induction es with
  | nil => rfl
  | cons e es ih => rw [normalizeAll, ih, List.map_cons]

@[simp] theorem children_normalize (e : Expr) :
    e.normalize.children = e.children.map normalize := by
  cases e with
  | group es => exact normalizeAll_eq_map es
  | synonyms es => exact normalizeAll_eq_map es
  | _ => rfl

mutual

/-- **Trees are the same query exactly if they have the same normal form.** -/
theorem same_iff_normalize_eq (a b : Expr) : same a b = true ↔ a.normalize = b.normalize := by
  cases a with
  | word v => cases b <;> simp [same, normalize]
  | phrase v => cases b <;> simp [same, normalize]
  | regex v => cases b <;> simp [same, normalize]
  | doi v => cases b <;> simp [same, normalize]
  | url v => cases b <;> simp [same, normalize]
  | field name body => cases b <;> simp [same, normalize, same_iff_normalize_eq body]
  | group es => cases b <;> simp [same, normalize, sameAll_iff_normalizeAll_eq es]
  | synonyms es => cases b <;> simp [same, normalize, sameAll_iff_normalizeAll_eq es]
  | range left right il ir =>
    cases b <;> simp [same, normalize, same_iff_normalize_eq left, same_iff_normalize_eq right,
      and_assoc]
  | boost body score =>
    cases b <;> simp [same, normalize, same_iff_normalize_eq body,
      Decimal.normalize_eq_iff_sameSize]
  | fuzzy term slop =>
    cases b <;> simp [same, normalize, same_iff_normalize_eq term,
      Decimal.normalize_eq_iff_sameSize]
  | proximity term slop => cases b <;> simp [same, normalize, same_iff_normalize_eq term]
  | plus inner => cases b <;> simp [same, normalize, same_iff_normalize_eq inner]
  | minus inner => cases b <;> simp [same, normalize, same_iff_normalize_eq inner]

theorem sameAll_iff_normalizeAll_eq (as bs : List Expr) :
    sameAll as bs = true ↔ normalizeAll as = normalizeAll bs := by
  cases as with
  | nil => cases bs <;> simp [sameAll, normalizeAll]
  | cons a as =>
    cases bs with
    | nil => simp [sameAll, normalizeAll]
    | cons b bs =>
      simp [sameAll, normalizeAll, same_iff_normalize_eq a b, sameAll_iff_normalizeAll_eq as bs]

end

/-! ### Texts -/

mutual

theorem chars_normalize (e : Expr) : e.normalize.chars = e.chars := by
  cases e with
  | word | phrase | regex | doi | url => rfl
  | group es => rw [normalize, chars, chars, charsOfAll_normalizeAll es]
  | synonyms es => rw [normalize, chars, chars, charsOfAll_normalizeAll es]
  | range left right il ir =>
    rw [normalize, chars, chars, chars_normalize left, chars_normalize right]
  | boost body score =>
    rw [normalize, chars, chars, chars_normalize body, Decimal.normalize_normalize]
  | fuzzy term slop =>
    rw [normalize, chars, chars, chars_normalize term, Decimal.normalize_normalize]
  | field _ body | proximity body _ | plus body | minus body =>
    rw [normalize, chars, chars, chars_normalize body]

theorem charsOfAll_normalizeAll (es : List Expr) :
    charsOfAll (normalizeAll es) = charsOfAll es := by
  cases es with
  | nil => rfl
  | cons e es =>
    cases es with
    | nil => exact chars_normalize e
    | cons f es =>
      change e.normalize.chars ++ ' ' :: charsOfAll (normalizeAll (f :: es)) =
        e.chars ++ ' ' :: charsOfAll (f :: es)
      rw [chars_normalize e, charsOfAll_normalizeAll (f :: es)]

end

/-- A tree is written like its normal form. -/
theorem text_normalize (e : Expr) : e.normalize.text = e.text := by
  rw [text, text, chars_normalize]

/-! ### Documents -/

@[simp] theorem occur_normalize (e : Expr) : e.normalize.occur = e.occur := by
  cases e <;> rfl

@[simp] theorem unsigned_normalize (e : Expr) : e.normalize.unsigned = e.unsigned.normalize := by
  cases e <;> rfl

theorem clause_normalize {f : Expr → Except Unsupported Document} {e : Expr}
    (h : f e.unsigned.normalize = f e.unsigned) : clause f e.normalize = clause f e := by
  rw [clause, clause, occur_normalize, unsigned_normalize, h]

theorem mapM_normalizeAll {α : Type} {f : Expr → Except Unsupported α} {es : List Expr}
    (h : ∀ e ∈ es, f e.normalize = f e) : (normalizeAll es).mapM f = es.mapM f := by
  induction es with
  | nil => rfl
  | cons e es ih =>
    rw [List.forall_mem_cons] at h
    rw [normalizeAll, List.mapM_cons, List.mapM_cons, h.1, ih h.2]

theorem boosted_normalize (query : Document) (score : Decimal) :
    query.boosted score.normalize = query.boosted score := by
  rw [Document.boosted, Document.boosted, Decimal.normalize_normalize]

theorem boundIn_normalize (name : String) (e : Expr) :
    boundIn name e.normalize = boundIn name e := by
  have hrefused : (.error ⟨e.normalize.text, name⟩ : Except Unsupported String) =
      .error ⟨e.text, name⟩ := by rw [text_normalize]
  cases e with
  | word | phrase | regex | doi | url => rfl
  | _ => exact hrefused

/-- A tree in a field has the document of its normal form. -/
theorem compileIn_normalize (name : String) (e : Expr) :
    compileIn name e.normalize = compileIn name e := by
  have hrefused : (.error ⟨e.normalize.text, name⟩ : Except Unsupported Document) =
      .error ⟨e.text, name⟩ := by rw [text_normalize]
  cases e with
  | word | phrase | regex | doi | url => rfl
  | field | fuzzy => exact hrefused
  | proximity term slop =>
    cases term with
    | phrase => rfl
    | _ => exact hrefused
  | range left right il ir =>
    rw [normalize, compileIn, compileIn, boundIn_normalize, boundIn_normalize]
  | group es =>
    rw [normalize, compileIn, compileIn, compileOperandsIn_eq_mapM, compileOperandsIn_eq_mapM,
      mapM_normalizeAll fun e he => ?_]
    have hsize : sizeOf e.unsigned < sizeOf es :=
      Nat.lt_of_le_of_lt (sizeOf_unsigned_le e) (List.sizeOf_lt_of_mem he)
    exact clause_normalize (compileIn_normalize name e.unsigned)
  | synonyms es =>
    rw [normalize, compileIn, compileIn, compileAllIn_eq_mapM, compileAllIn_eq_mapM,
      mapM_normalizeAll fun e he => ?_]
    exact compileIn_normalize name e
  | boost body score =>
    rw [normalize, compileIn, compileIn, compileIn_normalize name body]
    simp only [boosted_normalize]
  | plus body | minus body => rw [normalize, compileIn, compileIn, compileIn_normalize name body]
termination_by sizeOf e

/-- A tree has the document of its normal form. -/
theorem compile_normalize (e : Expr) : e.normalize.compile = e.compile := by
  have hfree : (.ok (.freeText e.normalize.text) : Except Unsupported Document) =
      .ok (.freeText e.text) := by rw [text_normalize]
  cases e with
  | word | phrase | regex | doi | url => rfl
  | range | fuzzy | proximity => exact hfree
  | field name body => exact compileIn_normalize name body
  | group es =>
    rw [normalize, compile, compile, compileOperands_eq_mapM, compileOperands_eq_mapM,
      mapM_normalizeAll fun e he => ?_]
    have hsize : sizeOf e.unsigned < sizeOf es :=
      Nat.lt_of_le_of_lt (sizeOf_unsigned_le e) (List.sizeOf_lt_of_mem he)
    exact clause_normalize (compile_normalize e.unsigned)
  | synonyms es =>
    rw [normalize, compile, compile, compileAll_eq_mapM, compileAll_eq_mapM,
      mapM_normalizeAll fun e he => ?_]
    exact compile_normalize e
  | boost body score =>
    rw [normalize, compile, compile, compile_normalize body]
    simp only [boosted_normalize]
  | plus body | minus body => rw [normalize, compile, compile, compile_normalize body]
termination_by sizeOf e

end SearchQuery.Expr
