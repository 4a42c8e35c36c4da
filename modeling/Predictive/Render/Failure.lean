import Predictive.Grammar.Error
import Predictive.Render.Grid
import Predictive.Text.Window

/-!
# Failures as documents

Two documents: why an input was refused, with the tokens around the offending one, and which
collisions a grammar has.
-/

namespace Predictive.FailurePage

open Markup

/-- The style sheet of both documents. -/
def styles : List Line :=
  styleSheet [
    styleRule ".error-message"
      "color: #b91c1c; background: #fef2f2; border: 1px solid #b91c1c; padding: 8px;",
    styleRule ".error-text" "font-weight: bold;",
    styleRule ".error-context .context-display"
      "font-family: monospace; background: #fff; padding: 6px;",
    styleRule ".error-position" "background: #b91c1c; color: #fff; padding: 0 2px;",
    styleRule ".position-info" "font-size: 11px; color: #555;",
    styleRule ".conflict-report" "background: #fffbeb; border: 1px solid #d97706; padding: 8px;",
    styleRule ".conflict-item" "border-left: 3px solid #d97706; padding-left: 6px;"]

/-- The tokens around an offending one. -/
structure Context where
  /-- Are tokens hidden before the first one shown? -/
  cutBefore : Bool
  before : List String
  /-- The offending token, or the sign for the end of the input. -/
  offending : String
  after : List String
  /-- Are tokens hidden behind the last one shown? -/
  cutAfter : Bool
deriving DecidableEq, Repr

/-- At most `reach` tokens on either side of a position. -/
def contextAt (tokens : List String) (position : Nat) (reach : Int) : Context :=
  let start : Int := max 0 (position - reach)
  let stop : Int := min tokens.length (position + reach + 1)
  { cutBefore := start > 0
    before := Text.window tokens start position
    offending := tokens[position]?.getD Grid.endLabel
    after := Text.window tokens (position + 1) stop
    cutAfter := stop < tokens.length }

/-- A line of dots where something is hidden. -/
def dots (hidden : Bool) : List Line :=
  if hidden then [[.text "..."]] else []

/-- A paragraph that is one emphasised heading. -/
def strongParagraph (heading : String) : Line :=
  element "p" [] (textElement "strong" [] heading)

/-- The part of a document that shows a context. -/
def contextLines (context : Context) (position : Nat) : List Line :=
  block "div" (classes "error-context") (
    strongParagraph "Context:" ::
    block "pre" (classes "context-display") (
      dots context.cutBefore ++
      [[.text (Text.unwords context.before)],
        textElement "span" (classes "error-position") context.offending,
        [.text (Text.unwords context.after)]] ++
      dots context.cutAfter) ++
    [textElement "p" (classes "position-info") ("Error at token " ++ toString position)])

/-- How many tokens are shown on either side unless the caller says otherwise. -/
def defaultReach : Int := 5

/-- The document for a refused input. The context is shown if the tokens are given and the
position is not negative. -/
def lines (config : RenderConfig) (message : String) (position : Int)
    (tokens : Option (List String)) (reach : Int) : List Line :=
  let context := match position, tokens with
    | .ofNat position, some tokens => contextLines (contextAt tokens position reach) position
    | _, _ => []
  (if config.inlineStyles then styles else []) ++
    block "div" (classes config.errorClasses) (
      textElement "h4" [] "Parse Error" ::
      textElement "p" (classes "error-text") message :: context)

/-- The document for a refused input, as a text. -/
def html (config : RenderConfig) (message : String) (position : Int)
    (tokens : Option (List String)) (reach : Int) : String :=
  render (lines config message position tokens reach)

/-- The part of a report about one collision. -/
def collisionLines (number : Nat) (c : Collision) : List Line :=
  block "div" (classes "conflict-item") (
    [textElement "h5" [] ("Collision " ++ toString number ++ ": variable " ++ c.owner),
      element "p" [] (textElement "strong" [] "Symbol:" ++ [.text (" " ++ c.symbol)]),
      strongParagraph "Competing Rules:"] ++
    block "ul" [] [textElement "li" [] c.first.text, textElement "li" [] c.second.text])

/-- The report on the collisions of a grammar. -/
def reportLines (config : RenderConfig) (collisions : List Collision) : List Line :=
  if collisions.isEmpty then
    [textElement "div" (classes "no-conflicts") "No collisions detected, the grammar is LL(1)."]
  else
    (if config.inlineStyles then styles else []) ++
      block "div" (classes "conflict-report") (
        textElement "h4" []
          ("Grammar Collisions (" ++ toString collisions.length ++ " found)") ::
        (collisions.zipIdx 1).flatMap fun (c, number) => collisionLines number c)

/-- The report on the collisions of a grammar, as a text. -/
def report (config : RenderConfig) (collisions : List Collision) : String :=
  render (reportLines config collisions)

end Predictive.FailurePage
