import Predictive.Json.Value
import Predictive.Workflow.Basic

/-!
# The answers of a workflow as JSON
-/

namespace Predictive

/-- The sentence that says why there is no report. -/
def GrammarError.analysisFailure (e : GrammarError) : String :=
  "Grammar analysis failed: " ++ e.message

/-- The sentence that says why no input is parsed. -/
def Collision.notDeterministic (c : Collision) : String :=
  c.message ++ ", so this grammar is not deterministic"

namespace Json

/-- Sets as an object by the names of variables. -/
def ofSets (sets : List (Symbol × SymbolSet)) : Json :=
  object (sets.map fun (v, symbols) => (v, strings symbols.toList))

/-- An error with its sentence and its word. -/
def ofFailure (sentence code : String) : Json :=
  object [("success", bool false), ("error", string sentence), ("error_type", string code)]

/-- A collision with its sentence. -/
def ofCollision (c : Collision) : Json :=
  object [("variable", string c.owner), ("symbol", string c.symbol), ("message", string c.message)]

/-- A report on a grammar. -/
def ofReport (r : GrammarReport) : Json :=
  object [
    ("success", bool true),
    ("rules", strings (r.rules.map (·.text))),
    ("start_symbol", string r.start),
    ("terminals", strings r.terminals.toList),
    ("non_terminals", strings r.nonterminals),
    ("first_sets", ofSets r.first),
    ("follow_sets", ofSets r.follow),
    ("lookahead_sets", array (r.lookahead.map fun (rule, symbols) =>
      object [("rule", string rule.text), ("lookahead", strings symbols.toList)])),
    ("deterministic", bool r.deterministic),
    ("collisions", array (r.collisions.map ofCollision)),
    ("parse_table_html", string r.tablePage),
    ("sets_html", string r.setsPage),
    ("collisions_html", string r.collisionsPage)]

end Json

namespace InputAnswer

/-- The document that shows the trace of a result. -/
def tracePage (result : ParseOutcome) : String :=
  TracePage.html {} TracePage.defaultTitle result.trace

/-- The document that shows why an input was refused. -/
def errorPage (input : String) (result : ParseOutcome) : String :=
  FailurePage.html {} result.errorMessage result.errorPosition (some (Text.words input))
    FailurePage.defaultReach

/-- The sentence of the answer where there was no analysis before. -/
def notAnalyzedSentence : String :=
  "Grammar must be analyzed before parsing input strings"

/-- The answer to an input as JSON. -/
def toJson : InputAnswer → Json
  | notAnalyzed => .ofFailure notAnalyzedSentence "workflow_error"
  | collision c => .ofFailure c.notDeterministic (GrammarError.collision c).code
  | parsed input result =>
    let verdict := [
      ("success", .bool true),
      ("accepted", .bool result.success),
      ("trace_html", .string (tracePage result)),
      ("trace_steps", .integer result.trace.length),
      ("input_string", .string input)]
    let refusal := [
      ("error", .string result.errorMessage),
      ("error_position", .integer result.errorPosition),
      ("error_html", .string (errorPage input result))]
    .object (if result.success then verdict else verdict ++ refusal)

end InputAnswer

/-- The answer to an analysis as JSON. -/
def AnalysisAnswer.toJson : AnalysisAnswer → Json
  | report r => .ofReport r
  | failure e => .ofFailure e.analysisFailure e.code

/-- The outcome of an analysis as JSON. An error that is no answer leaves nothing to write. -/
def Json.ofAnalysis : Except GrammarError AnalysisAnswer → Json
  | .ok answer => answer.toJson
  | .error _ => .null

end Predictive
