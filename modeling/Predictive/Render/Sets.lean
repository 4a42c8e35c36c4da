import Predictive.Analysis.Lookahead
import Predictive.Render.Grid

/-!
# The sets of a grammar as a document and as a text

The document has a row for each variable, with what it can begin with and what can follow it, and
a second table with a row for each rule, with what selects it. The text lists the same sets.
-/

namespace Predictive.SetsPage

open Markup

/-- A set between braces, in code point order. -/
def setText (symbols : SymbolSet) : String :=
  if symbols.isEmpty then "\x7b \x7d"
  else "\x7b " ++ ", ".intercalate symbols.toList ++ " \x7d"

/-- What the document says about a variable. -/
structure Entry where
  name : Symbol
  canBeEmpty : Bool
  first : SymbolSet
  follow : SymbolSet

/-- The row of a variable. -/
def variableRow (e : Entry) : List Line :=
  block "tr" [] [
    Grid.primaryCell e.name,
    Grid.cell (if e.canBeEmpty then "yes" else "no"),
    Grid.cell (setText e.first),
    Grid.cell (setText e.follow)]

/-- The row of a rule. -/
def ruleRow (r : Rule) (selected : SymbolSet) : List Line :=
  block "tr" [] [Grid.primaryCell r.text, Grid.cell (setText selected)]

/-- A table with a header row and the given rows. -/
def table (ownClass label : String) (headers : List String) (rows : List Line) : List Line :=
  Grid.table ownClass label (
    [.opening "thead" [], .opening "tr" []] :: headers.map Grid.header ++
    [[.closing "tr", .closing "thead"]] ++ block "tbody" [] rows)

/-- The document for the sets of the given variables and rules. -/
def lines (config : RenderConfig) (entries : List Entry) (rules : List (Rule × SymbolSet)) :
    List Line :=
  block "div" (classes config.setsClasses) (
    table "sets-table" "FIRST and FOLLOW sets" ["Nonterminal", "Can be empty", "FIRST", "FOLLOW"]
      (entries.flatMap variableRow) ++
    table "lookahead-table" "LOOKAHEAD sets" ["Rule", "LOOKAHEAD"]
      (rules.flatMap fun (r, selected) => ruleRow r selected))

/-- What the document says about the variables of a grammar. -/
def entries (g : Grammar) : Analysis (List Entry) := do
  let firsts ← g.allFirst
  let follows ← g.allFollow
  let empties ← Analysis.forEach g.symbolCanBeEmpty g.nonterminals
  pure ((firsts.zip follows).zipWith
    (fun (first, follow) empty =>
      { name := first.1, canBeEmpty := empty, first := first.2, follow := follow.2 })
    empties)

/-- The document for the sets of a grammar. -/
def html (config : RenderConfig) (g : Grammar) : Analysis String := do
  let entries ← entries g
  return render (lines config entries (← g.allLookahead))

/-- One line of the text. -/
def textLine (kind name : String) (symbols : SymbolSet) : String :=
  "  " ++ kind ++ "(" ++ name ++ ") = " ++ setText symbols

/-- The text for the given sets. -/
def listing (firsts follows : List (Symbol × SymbolSet)) (lookaheads : List (Rule × SymbolSet)) :
    String :=
  Text.unlines (
    "FIRST sets" :: firsts.map (fun (v, symbols) => textLine "FIRST" v symbols) ++
    "" :: "FOLLOW sets" :: follows.map (fun (v, symbols) => textLine "FOLLOW" v symbols) ++
    "" :: "LOOKAHEAD sets" ::
      lookaheads.map (fun (r, symbols) => textLine "LOOKAHEAD" r.text symbols)) ++ "\n"

/-- The text for the sets of a grammar. -/
def text (g : Grammar) : Analysis String := do
  let firsts ← g.allFirst
  let follows ← g.allFollow
  let lookaheads ← g.allLookahead
  pure (listing firsts follows lookaheads)

end Predictive.SetsPage
