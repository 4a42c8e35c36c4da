/-!
# Settings of the rendering
-/

namespace Predictive

/-- The classes that documents refer to, whether style sheets are put into them, and how many
tokens of the input a step of a trace shows. -/
structure RenderConfig where
  tableClasses : String := "parse-table"
  setsClasses : String := "grammar-sets"
  traceClasses : String := "parsing-trace"
  errorClasses : String := "error-message"
  inlineStyles : Bool := true
  maxTraceTokens : Int := 10
deriving DecidableEq, Repr

end Predictive
