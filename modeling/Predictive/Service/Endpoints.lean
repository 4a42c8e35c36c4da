import Predictive.Service.Response
import Predictive.Service.Route
import Predictive.Service.Target
import Predictive.Workflow.Encoding

/-!
# The endpoints of the service

One endpoint analyses a grammar, the other parses an input with a grammar. A refused input is a
verdict and not an error; a grammar that cannot be used for parsing is an error.
-/

namespace Predictive.Service

/-- The message about a value where a text was expected to be read. -/
def notReadable (value : Json) : String :=
  "expected string or bytes-like object, got '" ++ value.kind ++ "'"

/-- The message about a value where a text was expected to be cut into words. -/
def notSplittable (value : Json) : String :=
  "'" ++ value.kind ++ "' object has no attribute 'split'"

/-- The field of a request, if it is there and is not null. -/
def fieldOf (data : Json) (name : String) : Option Json :=
  match data.get? name with
  | none | some .null => none
  | some value => some value

/-- The grammar of a request: a field that is there and is something. -/
def grammarOf (data : Json) : Option Json :=
  (data.get? "grammar").filter Json.isSomething

/-- The log of an analysis that succeeded. -/
def analysisLog (report : GrammarReport) : List String :=
  ["--- Grammar Analysis SUCCEEDED ---",
    "Found " ++ toString report.rules.length ++ " rules"] ++
  if report.deterministic then []
  else ["Collisions detected: " ++ toString report.collisions.length]

/-- Analyses a grammar, collisions or not. -/
def reportEndpoint (data : Json) : Response :=
  match grammarOf data with
  | none => .lacking "No grammar provided"
  | some (.string text) =>
    let opening := "--- Analyzing Grammar ---"
    match (Workflow.ofText text).analyze with
    | (.ok (.report report), _) => .ok (.ofReport report) (opening :: analysisLog report)
    | (.ok (.failure e), _) =>
      .badRequest (AnalysisAnswer.failure e).toJson
        [opening, "--- Grammar Analysis FAILED ---", "Error: " ++ e.analysisFailure]
    | (.error e, _) => .unexpected e.message
  | some value => .unexpected (notReadable value)

/-- The verdict on an input. -/
def verdict (report : GrammarReport) (input : String) (result : ParseOutcome) : Json :=
  let accepted := [
    ("success", .bool true),
    ("accepted", .bool result.success),
    ("parseTableHtml", .string report.tablePage),
    ("parseTraceHtml", .string (InputAnswer.tracePage result)),
    ("traceSteps", .integer result.trace.length),
    ("startSymbol", .string report.start)]
  let refusal := [
    ("error", .string result.errorMessage),
    ("errorPosition", .integer result.errorPosition),
    ("errorHtml", .string (InputAnswer.errorPage input result))]
  .object (if result.success then accepted else accepted ++ refusal)

/-- The log of a verdict. -/
def verdictLog (result : ParseOutcome) : List String :=
  if result.success then ["--- Parsing SUCCEEDED ---"]
  else ["--- Input REJECTED ---", "Error: " ++ result.errorMessage]

/-- The response to a parse that was given up. -/
def aborted (report : GrammarReport) (sentence code opening : String) : Response :=
  .badRequest
    (.object [("success", .bool false), ("error", .string sentence),
      ("error_type", .string code), ("collisionsHtml", .string report.collisionsPage)])
    [opening, "--- Parsing ABORTED ---", "Error: " ++ sentence]

/-- Parses an input with a workflow whose grammar has been analysed. That the input is no text
shows only after the grammar has been found deterministic. -/
def parseWith (w : Workflow) (report : GrammarReport) (input : Json) : Response :=
  let opening := "--- Parsing Input String: '" ++ input.shown ++ "' ---"
  let text := match input with
    | .string text => some text
    | _ => none
  match (w.parse (text.getD "")).1, text with
  | .ok (.parsed _ result), some text =>
    .ok (verdict report text result) (opening :: verdictLog result)
  | .ok (.parsed _ _), none => .unexpected (notSplittable input)
  | .ok (.collision c), _ =>
    aborted report c.notDeterministic (GrammarError.collision c).code opening
  | .ok .notAnalyzed, _ =>
    aborted report InputAnswer.notAnalyzedSentence "workflow_error" opening
  | .error e, _ => .unexpected e.message

/-- Analyses a grammar and parses an input with it. The empty text is an input. -/
def verdictEndpoint (data : Json) : Response :=
  match grammarOf data, fieldOf data "input" with
  | none, _ => .lacking "No grammar provided"
  | some _, none => .lacking "No input string provided"
  | some (.string text), some input =>
    match (Workflow.ofText text).analyze with
    | (.ok (.report report), w) => parseWith w report input
    | (.ok (.failure e), _) =>
      .badRequest (AnalysisAnswer.failure e).toJson ["--- Grammar Analysis FAILED ---"]
    | (.error e, _) => .unexpected e.message
  | some value, some _ => .unexpected (notReadable value)

/-- What a route answers to a request that it takes. An endpoint takes what is posted to it, if
that is an object; every route tells its methods to those who ask for the options. -/
def serve (route : Route) (r : Request) : Response :=
  if r.verb = "OPTIONS" then { status := 200 }
  else
    match route, r.data with
    | .report, .object fields => reportEndpoint (.object fields)
    | .verdict, .object fields => verdictEndpoint (.object fields)
    | .report, _ | .verdict, _ => { status := 500 }
    | .file, _ => { status := 404 }

/-- Answers a request. A path that leads somewhere only after its runs of slashes are made single
ones is answered with where to go instead. -/
def respond (r : Request) : Response :=
  let target := Target.ofText r.target
  let ifAllowed (route : Route) (response : Response) : Response :=
    if !route.allows r then { status := 405 }
    else if target.isSocket then { status := 400 }
    else response
  match Route.ofPath? target.path, Route.ofPath? (Target.mergeSlashes target.path) with
  | some route, _ => ifAllowed route (serve route r)
  | none, some route => ifAllowed route { status := 308 }
  | none, none => { status := 404 }

end Predictive.Service
