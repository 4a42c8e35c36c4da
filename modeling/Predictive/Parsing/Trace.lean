import Predictive.Grammar.Basic

/-!
# Traces and results of a parse

A trace has a step for every configuration of the parser, with what was done there. A result says
whether the input was accepted and, if not, why and at which token.
-/

namespace Predictive

/-- What the parser does in a configuration. -/
inductive Action where
  /-- The symbol on top of the stack is the next token. -/
  | matched
  /-- The variable on top of the stack is replaced by the body of a rule. -/
  | expanded
  /-- Stack and input are used up together. -/
  | accepted
  /-- Nothing can be done. -/
  | failed
deriving DecidableEq, Repr

/-- The word for an action. -/
def Action.word : Action → String
  | matched => "match"
  | expanded => "expand"
  | accepted => "accept"
  | failed => "error"

/-- A configuration of the parser, the top of the stack first, and what was done there. -/
structure Step where
  number : Int
  stack : List Symbol
  input : List Symbol
  action : Action
  rule : Option Rule := none
deriving DecidableEq, Repr

namespace Step

/-- The step as a line; of the input it shows at most five tokens. -/
def text (step : Step) : String :=
  let more := if step.input.length > 5 then " ..." else ""
  let rule := match step.rule with
    | none => ""
    | some r => " " ++ r.text
  "Step " ++ toString step.number ++ ": Stack=[" ++ Text.unwords step.stack ++ "] Input=[" ++
    Text.unwords (step.input.take 5) ++ more ++ "] Action=" ++ step.action.word ++ rule

end Step

/-- Why an input was refused. -/
inductive Failure where
  /-- The reserved spelling stands in the input. -/
  | reservedToken
  /-- The input ends where a terminal must come. -/
  | endBeforeTerminal (expected : Symbol)
  /-- Another token stands where a terminal must come. -/
  | wrongTerminal (found expected : Symbol)
  /-- No rule of a variable is selected by the next token, or by the end of the input. -/
  | noRule (found : Option Symbol) (v : Symbol) (expected : List Symbol)
  /-- Input is left behind a complete derivation. -/
  | inputLeft (found : Symbol)
deriving DecidableEq, Repr

namespace Failure

/-- The sentence that describes the failure. -/
def message : Failure → String
  | reservedToken => "Reserved symbol '" ++ emptyMarker ++ "' is not a valid token"
  | endBeforeTerminal expected => "Unexpected end of input, expected '" ++ expected ++ "'"
  | wrongTerminal found expected =>
    "Unexpected symbol '" ++ found ++ "', expected '" ++ expected ++ "'"
  | noRule found v expected =>
    let subject := match found with
      | none => "end of input"
      | some token => "symbol '" ++ token ++ "'"
    "Unexpected " ++ subject ++ " while expanding " ++ v ++ ". Expected one of: " ++
      Text.quotedList expected
  | inputLeft found => "Unexpected symbol '" ++ found ++ "' after a complete derivation"

end Failure

/-- The verdict on an input and the steps to it. Of an accepted input the error text is empty and
the error position is minus one; otherwise the position is the number of tokens read before. -/
structure ParseOutcome where
  success : Bool
  errorMessage : String := ""
  errorPosition : Int := -1
  trace : List Step := []
deriving DecidableEq, Repr

namespace ParseOutcome

/-- The result as a sentence. -/
def text (result : ParseOutcome) : String :=
  if result.success then
    "Parse successful in " ++ toString result.trace.length ++ " steps"
  else
    "Parse failed: " ++ result.errorMessage ++ " at token " ++ toString result.errorPosition

/-- The same verdict with one more step before all others. -/
def after (result : ParseOutcome) (step : Step) : ParseOutcome :=
  { result with trace := step :: result.trace }

end ParseOutcome

end Predictive
