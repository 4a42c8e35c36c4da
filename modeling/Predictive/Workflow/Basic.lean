import Predictive.Grammar.Reader
import Predictive.Parsing.Run
import Predictive.Render.Failure
import Predictive.Render.Sets
import Predictive.Render.Table
import Predictive.Render.Trace

/-!
# The workflow of analysing a grammar and parsing with it

A workflow holds the text of a grammar and, after an analysis that succeeded, the grammar with
all that has been found out about it. Inputs are parsed with the grammar of the last analysis,
whatever the text is by then.
-/

namespace Predictive

/-- A grammar with all that has been found out about it. -/
structure Session where
  grammar : Grammar
  memo : Memo := {}

namespace Session

/-- Runs an analysis of the grammar and remembers what it finds. -/
def run {α : Type} (s : Session) (analysis : Grammar → Analysis α) :
    Except GrammarError α × Session :=
  match (analysis s.grammar).runFrom s.memo with
  | (outcome, memo) => (outcome, { s with memo := memo })

/-- The session with a further rule in its grammar. -/
def addRule (s : Session) (owner : Symbol) (p : Production) : Session :=
  { s with grammar := s.grammar.addRule owner p }

end Session

/-- The sets of a grammar and its collisions. -/
structure GrammarSets where
  first : List (Symbol × SymbolSet)
  follow : List (Symbol × SymbolSet)
  lookahead : List (Rule × SymbolSet)
  collisions : List Collision

/-- Finds the sets of a grammar and its collisions. -/
def GrammarSets.ofGrammar (g : Grammar) : Analysis GrammarSets := do
  let first ← g.allFirst
  let follow ← g.allFollow
  let lookahead ← g.allLookahead
  let collisions ← g.collisions
  pure { first := first, follow := follow, lookahead := lookahead, collisions := collisions }

/-- The result of analysing a grammar: its parts, its sets and the documents about them. -/
structure GrammarReport extends GrammarSets where
  rules : List Rule
  start : Symbol
  terminals : SymbolSet
  nonterminals : List Symbol
  tablePage : String
  setsPage : String
  collisionsPage : String

namespace GrammarReport

/-- A grammar is deterministic if it has no collisions. -/
def deterministic (report : GrammarReport) : Bool :=
  report.collisions.isEmpty

/-- The report on a grammar whose sets have been found. -/
def ofSets (g : Grammar) (sets : GrammarSets) : Analysis GrammarReport := do
  let tablePage ← TablePage.html {} g
  let setsPage ← SetsPage.html {} g
  pure {
    toGrammarSets := sets
    rules := g.rules
    start := g.start
    terminals := g.terminals
    nonterminals := g.nonterminals
    tablePage := tablePage
    setsPage := setsPage
    collisionsPage := FailurePage.report {} sets.collisions }

end GrammarReport

/-- The answer to an analysis. -/
inductive AnalysisAnswer where
  /-- The grammar has been analysed. -/
  | report (r : GrammarReport)
  /-- The text declares no grammar, or its sets cannot be found. -/
  | failure (e : GrammarError)

/-- The answer to an input. -/
inductive InputAnswer where
  /-- No grammar has been analysed successfully. -/
  | notAnalyzed
  /-- The grammar is not deterministic. -/
  | collision (c : Collision)
  /-- The input has been parsed. -/
  | parsed (input : String) (result : ParseOutcome)
deriving DecidableEq, Repr

/-- How far a workflow has come. -/
inductive Stage where
  | initial
  | analyzed
deriving DecidableEq, Repr

/-- The word for a stage. -/
def Stage.word : Stage → String
  | initial => "initial"
  | analyzed => "grammar_analyzed"

/-- The text of a grammar and the session of its last analysis. -/
structure Workflow where
  text : String
  session : Option Session := none
  stage : Stage := .initial

namespace Workflow

/-- A workflow at its beginning. -/
def ofText (text : String) : Workflow where
  text := text

/-- Analyses the grammar that the text declares. An error of the reader or of the sets is an answer;
after it there is no session, and the stage stays as it is. An error in the documents stays one. -/
def analyze (w : Workflow) : Except GrammarError AnalysisAnswer × Workflow :=
  match Grammar.ofText w.text with
  | .error e => (.ok (.failure e), { w with session := none })
  | .ok g =>
    match ({ grammar := g } : Session).run GrammarSets.ofGrammar with
    | (.error e, _) => (.ok (.failure e), { w with session := none })
    | (.ok sets, session) =>
      match session.run fun g => GrammarReport.ofSets g sets with
      | (.ok report, session) =>
        (.ok (.report report), { w with session := some session, stage := .analyzed })
      | (.error e, session) => (.error e, { w with session := some session, stage := .analyzed })

/-- Parses an input with the grammar of the last analysis. A collision is an answer, any other
error of the grammar stays one. -/
def parse (w : Workflow) (input : String) : Except GrammarError InputAnswer × Workflow :=
  match w.stage, w.session with
  | .analyzed, some session =>
    match session.run fun g => g.parseText input with
    | (.ok result, session) => (.ok (.parsed input result), { w with session := some session })
    | (.error (.collision c), session) =>
      (.ok (.collision c), { w with session := some session })
    | (.error e, session) => (.error e, { w with session := some session })
  | _, _ => (.ok .notAnalyzed, w)

/-- The workflow with another text; the last analysis stays. -/
def setText (w : Workflow) (text : String) : Workflow :=
  { w with text := text }

/-- The workflow with a further rule in the grammar of the last analysis. -/
def addRule (w : Workflow) (owner : Symbol) (p : Production) : Workflow :=
  { w with session := w.session.map fun s => s.addRule owner p }

end Workflow

end Predictive
