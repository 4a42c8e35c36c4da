import Predictive.Analysis.Determinism

/-!
# Building the predictive table

Each alternative of a variable is entered under the terminals that select it and, if its body
derives the empty string, under the reserved key for the end of the input. Collisions are not
looked for: a later alternative replaces an earlier one.
-/

namespace Predictive

open Analysis (forEach lookUp remember)

namespace Row

/-- Enters a rule under the given keys. -/
def enter (row : Row) (r : Rule) (keys : List Symbol) : Row :=
  keys.foldl (fun entries key => entries.insert key r) row

end Row

namespace Grammar

variable (g : Grammar)

/-- Enters alternatives of one variable into its row, from first to last. -/
def rowOf : List Rule → Row → Analysis Row
  | [], row => pure row
  | r :: rest, row => do
    let selected ← g.lookahead r
    let row := Row.enter row r selected.toList
    let row := if ← g.ruleCanBeEmpty r then Row.enter row r [emptyMarker] else row
    rowOf rest row

/-- The predictive table, built from what is known about the grammar. -/
def buildTable : Analysis Table := do
  let rows ← forEach (fun v => do return (v, ← g.rowOf (g.alternatives v) ∅)) g.nonterminals
  pure { rows := rows }

/-- The predictive table, built when it is first asked for. -/
def table : Analysis Table := do
  match ← lookUp (·.table) with
  | some known => pure known
  | none =>
    let built ← g.buildTable
    remember fun memo => { memo with table := some built }
    pure built

end Grammar

end Predictive
