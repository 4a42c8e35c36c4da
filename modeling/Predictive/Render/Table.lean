import Predictive.Analysis.Prediction
import Predictive.Render.Grid

/-!
# The predictive table as a document

One row for each variable in the order of declaration, one column for each terminal in code point
order and a last column for the end of the input.
-/

namespace Predictive.TablePage

open Markup

/-- The style sheet of a table. -/
def styles : List Line :=
  styleSheet [
    styleRule ".parse-table"
      "border-collapse: collapse; font-family: monospace; font-size: 12px;",
    styleRule ".parse-table th, .parse-table td"
      "border: 1px solid #9ca3af; padding: 4px 8px; text-align: center;",
    styleRule ".parse-table .grammar-table-cell-primary" "font-weight: bold; text-align: left;",
    styleRule ".parse-table .end-marker" "color: #6b7280;",
    styleRule ".expand-action" "white-space: nowrap;"]

/-- The header row. -/
def header (terminals : List Symbol) : List Line :=
  block "thead" [] (block "tr" [] (
    Grid.primaryHeader "Nonterminal" :: terminals.map Grid.header ++
      [Grid.headerWith " end-marker" Grid.endLabel]))

/-- A cell with the rule of an entry, or an empty one. -/
def cell : Option Rule → Line
  | none => Grid.cellWith " empty-cell" []
  | some r => Grid.cellWith "" (textElement "span" (classes "expand-action") r.text)

/-- The row of a variable. -/
def row (columns : List Symbol) (v : Symbol) (entries : Row) : List Line :=
  block "tr" [] (Grid.primaryCell v :: columns.map fun column => cell entries[column]?)

/-- The document for a table over the given variables and terminals. -/
def lines (config : RenderConfig) (nonterminals terminals : List Symbol) (t : Table) : List Line :=
  if t.rows.isEmpty then
    [Grid.emptyNote config "No parsing table entries found"]
  else
    let columns := terminals ++ [emptyMarker]
    (if config.inlineStyles then styles else []) ++
      Grid.table config.tableClasses "LL(1) predictive parsing table" (
        header terminals ++
        block "tbody" [] (nonterminals.flatMap fun v => row columns v (t.row v)))

/-- The document for the table of a grammar. -/
def html (config : RenderConfig) (g : Grammar) : Analysis String := do
  return render (lines config g.nonterminals g.terminals.toList (← g.table))

end Predictive.TablePage
