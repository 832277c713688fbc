import SearchQuery.Expr.Basic

/-!
# Equality of query trees

Two trees are the same query when they have the same shape and the same contents, where decimal
numbers are compared by size.

This is coarser than equality, since `a^2.50` and `a^2.5` are the same query with different numbers.
It is finer than equality of meaning: the order of operands counts, and so does a boost by one.

## Main definitions

* `Expr.same` — whether two trees are the same query
-/

namespace SearchQuery.Expr

mutual

/-- Whether the two trees have the same shape and contents, numbers being compared by size. -/
def same : Expr → Expr → Bool
  | word a, word b => a == b
  | phrase a, phrase b => a == b
  | regex a, regex b => a == b
  | doi a, doi b => a == b
  | url a, url b => a == b
  | field m a, field n b => m == n && same a b
  | group as, group bs => sameAll as bs
  | synonyms as, synonyms bs => sameAll as bs
  | range a b il ir, range c d jl jr => same a c && same b d && il == jl && ir == jr
  | boost a s, boost b t => same a b && s.sameSize t
  | fuzzy a s, fuzzy b t => same a b && s.sameSize t
  | proximity a s, proximity b t => same a b && s == t
  | plus a, plus b => same a b
  | minus a, minus b => same a b
  | _, _ => false

/-- Whether the two lists hold the same queries in the same order. -/
def sameAll : List Expr → List Expr → Bool
  | [], [] => true
  | a :: as, b :: bs => same a b && sameAll as bs
  | _, _ => false

end

end SearchQuery.Expr
