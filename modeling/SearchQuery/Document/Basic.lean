/-!
# Structured documents

What a search engine is handed: clauses, and combinations of clauses.

A clause outside of fields is a text that the engine reads by itself, and a clause in a field says
what is looked for there. A combination gives each of its clauses a part. A boolean combination in
which no clause is required matches if one of the optional ones does; what follows from that for
queries is proved where matching is defined, and nothing about it is part of the type.

Scores are texts. They are written in decimal digits and the engine reads them back, so two
documents with equal scores are equal as written.

## Main definitions

* `Occur` — how a clause takes part in a combination
* `Document` — clauses
-/

namespace SearchQuery

/-- How a clause takes part in a combination. -/
inductive Occur where
  /-- It has to match. -/
  | must
  /-- It counts when it matches. -/
  | should
  /-- It must not match. -/
  | mustNot
  deriving DecidableEq, Repr, Inhabited

/-- The bounds of a range. -/
structure Bounds where
  /-- The lower bound. -/
  left : String
  /-- The upper bound. -/
  right : String
  /-- Whether the lower bound is included. -/
  includeLeft : Bool
  /-- Whether the upper bound is included. -/
  includeRight : Bool
  deriving DecidableEq, Repr

/-- A clause. -/
inductive Document where
  /-- Everything matches. -/
  | all
  /-- Nothing matches. -/
  | empty
  /-- A text searched in the usual fields. -/
  | freeText (value : String)
  /-- A term in a field. -/
  | term (field value : String)
  /-- A phrase in a field, with a distance between its words if one is given. -/
  | phrase (field value : String) (slop : Option UInt32)
  /-- A regular expression in a field. -/
  | regex (field value : String)
  /-- A range in a field. -/
  | range (field : String) (bounds : Bounds)
  /-- Clauses with their parts in a combination. -/
  | boolean (clauses : List (Occur × Document))
  /-- Clauses of which the best one counts. -/
  | best (disjuncts : List Document)
  /-- A clause with its weight multiplied by a decimal number. -/
  | boost (query : Document) (score : String)
  deriving Repr, Inhabited

end SearchQuery
