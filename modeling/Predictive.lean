import Predictive.Text.Blank
import Predictive.Text.Printable
import Predictive.Text.Quoted
import Predictive.Text.Window
import Predictive.Grammar.Basic
import Predictive.Grammar.Error
import Predictive.Grammar.Reader
import Predictive.Grammar.Derivation
import Predictive.Analysis.Table
import Predictive.Analysis.Memo
import Predictive.Analysis.Emptiness
import Predictive.Analysis.First
import Predictive.Analysis.Follow
import Predictive.Analysis.Lookahead
import Predictive.Analysis.Determinism
import Predictive.Analysis.Prediction
import Predictive.Parsing.Trace
import Predictive.Parsing.Run
import Predictive.Render.Markup
import Predictive.Render.Config
import Predictive.Render.Grid
import Predictive.Render.Table
import Predictive.Render.Sets
import Predictive.Render.Trace
import Predictive.Render.Failure
import Predictive.Json.Fraction
import Predictive.Json.Value
import Predictive.Json.Writer
import Predictive.Json.Reader
import Predictive.Json.Encoding
import Predictive.Workflow.Basic
import Predictive.Workflow.Encoding
import Predictive.Service.Escape
import Predictive.Service.Target
import Predictive.Service.Request
import Predictive.Service.Route
import Predictive.Service.Response
import Predictive.Service.Endpoints
import Predictive.CommandLine
import Predictive.Main
import Predictive.Proofs.Grammar.Forms
import Predictive.Proofs.Analysis.Ensures
import Predictive.Proofs.Grammar.Beginning
import Predictive.Proofs.Grammar.Erasing
import Predictive.Proofs.Grammar.Following
import Predictive.Proofs.Analysis.Exactness
import Predictive.Proofs.Analysis.Emptiness
import Predictive.Proofs.Analysis.First
import Predictive.Proofs.Analysis.Follow
import Predictive.Proofs.Analysis.Lookahead
import Predictive.Proofs.Analysis.Determinism
import Predictive.Proofs.Analysis.Table
import Predictive.Proofs.Analysis.Declared
import Predictive.Proofs.Analysis.Agreement
import Predictive.Proofs.Analysis.Steadiness
import Predictive.Proofs.Analysis.Growth
import Predictive.Proofs.Analysis.FollowMemory
import Predictive.Proofs.Analysis.Lasting
import Predictive.Proofs.Parsing.Moves
import Predictive.Proofs.Parsing.Reading
import Predictive.Proofs.Parsing.Termination
import Predictive.Proofs.Parsing.Loop
import Predictive.Proofs.Parsing.Recognition
import Predictive.Proofs.Parsing.Position
import Predictive.Proofs.History
import Predictive.Proofs.Answers
import Predictive.Proofs.Independence
import Predictive.Proofs.Repetition
import Predictive.Proofs.LeftRecursion
import Predictive.Proofs.Language
import Predictive.Proofs.Expansion
import Predictive.Proofs.Outcomes
import Predictive.Proofs.Traces
import Predictive.Proofs.Disjointness
import Predictive.Proofs.Collisions
import Predictive.Proofs.Grammar.Declarations
import Predictive.Proofs.KnownSymbols
import Predictive.Proofs.Prediction
import Predictive.Proofs.Multiplicity
import Predictive.Proofs.Grammar.Rereading
import Predictive.Proofs.Grammar.Leftmost
import Predictive.Proofs.Unambiguity
import Predictive.Proofs.Text.Codes
import Predictive.Proofs.Render.Tags
import Predictive.Proofs.Render.Cells
import Predictive.Proofs.Render.Shape
import Predictive.Proofs.Render.WholeTable
import Predictive.Proofs.Render.Listing
import Predictive.Proofs.Render.Context
import Predictive.Proofs.Workflow.Session
import Predictive.Proofs.Workflow.Conversation
import Predictive.Proofs.Workflow.Refusals
import Predictive.Proofs.Service.Verdicts
import Predictive.Proofs.Service.Messages
import Predictive.Proofs.CommandLine
