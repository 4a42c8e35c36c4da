import Predictive.Grammar.Reader
import Predictive.Parsing.Run
import Predictive.Render.Sets
import Predictive.Workflow.Encoding

/-!
# The command line

The program takes a grammar file and an input file. It checks that the grammar is deterministic,
lists its sets and says whether the input belongs to its language. Only the errors of the check are
caught: one in the rest would escape when part of the output is already printed. What is printed is
computed here; reading the files and printing are left to the caller.
-/

namespace Predictive.CommandLine

/-- A file that is named on the command line: its bytes, or none if it does not exist. -/
abbrev File := Option ByteArray

/-- Why a file cannot be used. -/
inductive FileError where
  | notFound
  | notText
deriving DecidableEq, Repr

/-- The message about a file that cannot be used. -/
def FileError.message : FileError → String
  | notFound => "file not found"
  | notText => "file is not UTF-8 text"

/-- The exit status and what is printed. -/
structure Outcome where
  status : Nat
  output : String := ""
  errors : String := ""
  /-- The error that ended the program, if nothing caught it. -/
  escaped : Option GrammarError := none
deriving DecidableEq, Repr

/-- A text with every kind of line end replaced by a line feed. -/
def uniformLines : List Char → List Char
  | '\r' :: '\n' :: rest => '\n' :: uniformLines rest
  | '\r' :: rest => '\n' :: uniformLines rest
  | c :: rest => c :: uniformLines rest
  | [] => []

/-- The text in a file. -/
def readText : File → Except FileError String
  | none => .error .notFound
  | some bytes =>
    match String.fromUTF8? bytes with
    | none => .error .notText
    | some text => .ok (String.ofList (uniformLines text.toList))

/-- The grammar of a text, if it is deterministic, and all that is remembered after the check. -/
def checked (grammarText : String) : Except GrammarError (Grammar × Memo) := do
  let g ← Grammar.ofText grammarText
  match g.requireDeterministic.runFrom {} with
  | (.ok (), memo) => return (g, memo)
  | (.error e, _) => throw e

/-- What is printed if the grammar cannot be used. -/
def complaint : GrammarError → String
  | .collision c => c.notDeterministic ++ "\n"
  | e => "Grammar error [" ++ e.code ++ "]: " ++ e.message ++ "\n"

/-- The first line for a grammar that has passed the check. -/
def headline : String :=
  "Grammar is deterministic\n"

/-- The last line. -/
def verdict (accepted : Bool) : String :=
  if accepted then "Success\n" else "Didn't parse\n"

/-- The outcome for a grammar that has passed the check, with all that is remembered after it. -/
def report (g : Grammar) (memo : Memo) (input : String) : Outcome :=
  match (SetsPage.text g).runFrom memo with
  | (.error e, _) => { status := 1, output := headline, escaped := some e }
  | (.ok sets, memo) =>
    match (g.accepts input).runFrom memo with
    | (.error e, _) => { status := 1, output := headline ++ sets, escaped := some e }
    | (.ok accepted, _) => { status := 0, output := headline ++ sets ++ verdict accepted }

/-- The outcome for the texts of the two files. -/
def check (grammarText input : String) : Outcome :=
  match checked grammarText with
  | .error e => { status := 1, errors := complaint e }
  | .ok (g, memo) => report g memo input

/-- How the program is to be called. -/
def usage : String :=
  "usage: ll1_parser.py GRAMMAR_FILE INPUT_FILE\n"

/-- The outcome for the files that are named. Both are read before the grammar is looked at, the
grammar file first. -/
def run (files : List File) : Except FileError Outcome :=
  match files with
  | [grammarFile, inputFile] => do
    let grammarText ← readText grammarFile
    let input ← readText inputFile
    return check grammarText input
  | _ => .ok { status := 2, errors := usage }

end Predictive.CommandLine
