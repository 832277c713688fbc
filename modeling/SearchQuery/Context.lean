import SearchQuery.Settings.Basic
import SearchQuery.Document.Basic
import SearchQuery.Number.Floating

/-!
# What is known about a query

The passes note what they find in a context that goes with the tree. Whatever a pass takes out of
the tree leaves its trace here: the identifiers, the sort, the markers, and that a search in a
rejected field was dropped.

## Queries without a tree

A query has no tree if nothing was typed, or if the passes took everything out. Either way the
settings say what it matches, with one exception. A query that lost a search in a rejected field
matches nothing: everything would be far more than was asked for.

## Times

No clock is read anywhere. The time that a query refers to is the middle of a year that the caller
names. Years are those of the Gregorian calendar with a year zero, and times count whole seconds, so
all of it is arithmetic of whole numbers.

## Main definitions

* `Context` — what is known about a query
* `Context.blankQuery` — what a query without a tree matches
* `Calendar.midsummer?` — the time that a year stands for
-/

namespace SearchQuery

/-- A sort that a query asks for. -/
structure SortOrder where
  /-- The field to sort by. -/
  field : String
  /-- The direction. -/
  direction : SortDirection
  deriving DecidableEq, Repr

/-- What is known about a query. -/
structure Context where
  /-- The identifiers that the query names, in order. -/
  dois : List String := []
  /-- The language of the query. -/
  language : Option String := none
  /-- The languages that the caller thinks likely, with their weights. -/
  languages : List (String × Number.Floating) := []
  /-- The sort that the query asks for. -/
  sortOrder : Option SortOrder := none
  /-- Whether the caller is browsing. -/
  isExploration : Bool := true
  /-- Whether the query asks for results as they are. -/
  isForcedClean : Bool := false
  /-- Whether a search in a rejected field was dropped. -/
  hasInvalidFields : Bool := false
  /-- The time that the query refers to, in seconds since 1970. -/
  pointOfTime : Option Int := none
  /-- What a query without a tree matches. -/
  blank : BlankPolicy := .all

/-! ### Years -/

namespace Calendar

/-- The number of days from the beginning of 1970 to the beginning of a year, in the Gregorian
calendar extended to all years. -/
def daysToYear (year : Int) : Int :=
  let y := year - 1
  365 * (year - 1970) + (y / 4 - 1969 / 4) - (y / 100 - 1969 / 100) + (y / 400 - 1969 / 400)

/-- Whether a year has a leap day. -/
def isLeap (year : Int) : Bool := year % 4 = 0 && (year % 100 ≠ 0 || year % 400 = 0)

/-- The midnight at which July of a year begins, in seconds since 1970. -/
def midsummer (year : Int) : Int :=
  (daysToYear year + (if isLeap year then 182 else 181)) * 86400

/-- The midnight at which July begins, for years of at most four digits. -/
def midsummer? (year : Int) : Option Int :=
  if -9999 ≤ year && year ≤ 9999 then some (midsummer year) else none

end Calendar

namespace Context

/-- Whether the caller is browsing and the query does not ask for results as they are. -/
def withUserIntent (c : Context) : Bool := c.isExploration && !c.isForcedClean

/-- The context with the time that a year stands for, if the year is in range. -/
def atYear? (c : Context) (year : Int) : Option Context :=
  (Calendar.midsummer? year).map fun t => { c with pointOfTime := some t }

/-- What the query matches if it has no tree. A query that lost a search in a rejected field
matches nothing. -/
def blankQuery (c : Context) : Document :=
  if c.hasInvalidFields then .empty
  else match c.blank with
    | .all => .all
    | .empty => .empty

end Context

end SearchQuery
