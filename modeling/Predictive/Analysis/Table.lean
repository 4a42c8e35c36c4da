import Predictive.Grammar.Basic
import Std.Data.ExtTreeMap

/-!
# Predictive tables

A predictive table has a row for each variable. A row says which rule to expand the variable by
when a token comes next, and under the reserved key which one when the input is at its end.
-/

namespace Predictive

/-- The rules of one variable by the token that selects them. -/
abbrev Row := Std.ExtTreeMap Symbol Rule

/-- Rows in the order of the variables. -/
structure Table where
  rows : List (Symbol × Row)

namespace Table

/-- The row of a variable; a variable without a row has an empty one. -/
def row (t : Table) (v : Symbol) : Row :=
  (t.rows.lookup v).getD ∅

/-- The key of the token that comes next, if there is one. -/
def keyOf : Option Symbol → Symbol
  | none => emptyMarker
  | some token => token

/-- The rule to expand a variable by when `next` comes next. -/
def rule? (t : Table) (v : Symbol) (next : Option Symbol) : Option Rule :=
  (t.row v)[keyOf next]?

/-- The tokens that a variable has a rule for, in code point order, the end of the input shown as
a dollar sign. -/
def expected (t : Table) (v : Symbol) : List Symbol :=
  (t.row v).keys.map fun key => if key = emptyMarker then "$" else key

end Table

end Predictive
