import Predictive.Parsing.Trace
import Predictive.Render.Grid
import Predictive.Text.Window

/-!
# Traces as documents

A table with a row for each step. A long stack is cut, and of the input only the first tokens are
shown, always followed by the sign for its end.
-/

namespace Predictive.TracePage

open Markup

/-- The longest text of a stack that is shown whole. -/
def stackLimit : Nat := 60

/-- The length of what is shown of a longer one, without the dots behind it. -/
def stackShown : Nat := 57

/-- A stack as it is shown, the top first. -/
def stackText (stack : List Symbol) : String :=
  let whole := (Text.unwords stack).toList
  if whole.length > stackLimit then
    String.ofList (whole.take stackShown ++ ['.', '.', '.'])
  else
    String.ofList whole

/-- The tokens that are shown of an input: those up to a bound that may be signed, dots if the
input is longer than the bound, and the sign for the end. -/
def inputTokens (bound : Int) (input : List Symbol) : List String :=
  Text.upTo input bound ++ (if (input.length : Int) > bound then ["..."] else []) ++
    [Grid.endLabel]

/-- The row of a step. -/
def row (config : RenderConfig) (step : Step) : List Line :=
  let action := step.action.word
  block "tr" (classes (action ++ "-step")) [
    Grid.cellWith " grammar-table-cell-primary step-number" [.text (toString step.number)],
    Grid.cellWith " stack" [.text (stackText step.stack)],
    Grid.cellWith " input" [.text (Text.unwords (inputTokens config.maxTraceTokens step.input))],
    Grid.cellWith " action" (textElement "span" (classes ("grammar-action-" ++ action)) action),
    Grid.cellWith " production" [.text ((step.rule.map (·.text)).getD "")]]

/-- The document for the steps of a trace. -/
def lines (config : RenderConfig) (title : String) (steps : List Step) : List Line :=
  if steps.isEmpty then
    block "div" (classes config.errorClasses) [textElement "p" [] "No parsing steps recorded"]
  else
    block "div" (classes config.traceClasses) (
      textElement "h3" [] title ::
      Grid.table "trace-table" "Step-by-step parsing trace" (
        block "thead" [] (block "tr" [] (
          Grid.primaryHeader "Step" :: ["Stack", "Input", "Action", "Rule"].map Grid.header)) ++
        block "tbody" [] (steps.flatMap (row config))))

/-- The title of a trace that has no other. -/
def defaultTitle : String := "Parsing Trace"

/-- The document for the steps of a trace, as a text. -/
def html (config : RenderConfig) (title : String) (steps : List Step) : String :=
  render (lines config title steps)

end Predictive.TracePage
