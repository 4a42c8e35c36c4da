import Predictive.Render.Config
import Predictive.Render.Markup

/-!
# Grids

The parts that all rendered tables share: the table itself, the cells of its header, the first
cell of a row and the others. The end of the input is shown as a dollar sign.
-/

namespace Predictive.Grid

open Markup

/-- How the end of the input is shown. -/
def endLabel : String := "$"

/-- A table with its own classes and a label for readers that do not see it. -/
def table (ownClasses label : String) (content : List Line) : List Line :=
  block "table" [("class", "grammar-table " ++ ownClasses), ("role", "table"),
    ("aria-label", label)] content

/-- A header cell with further classes. -/
def headerWith (further label : String) : Line :=
  textElement "th" [("class", "grammar-table-header" ++ further), ("scope", "col")] label

/-- A header cell. -/
def header (label : String) : Line :=
  headerWith "" label

/-- The header cell of the first column. -/
def primaryHeader (label : String) : Line :=
  headerWith " grammar-table-header-primary" label

/-- A cell with further classes. -/
def cellWith (further : String) (content : Line) : Line :=
  element "td" (classes ("grammar-table-cell" ++ further)) content

/-- A cell with a text. -/
def cell (content : String) : Line :=
  cellWith "" [.text content]

/-- The first cell of a row. -/
def primaryCell (content : String) : Line :=
  cellWith " grammar-table-cell-primary" [.text content]

/-- A note instead of a table that would be empty, on one line. -/
def emptyNote (config : RenderConfig) (message : String) : Line :=
  element "div" (classes config.errorClasses) (textElement "p" [] message)

end Predictive.Grid
