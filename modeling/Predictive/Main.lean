import Predictive.CommandLine

/-!
# The program

Reads the files that are named on the command line, and prints and returns what
`CommandLine.run` says.
-/

namespace Predictive.CommandLine

/-- The bytes of a file, if it exists. -/
def readFile (path : String) : IO File := do
  try
    return some (← IO.FS.readBinFile path)
  catch
    | .noFileOrDirectory .. => return none
    | e => throw e

end Predictive.CommandLine

open Predictive.CommandLine in
def main (arguments : List String) : IO UInt32 := do
  let files ← if arguments.length = 2 then arguments.mapM readFile
    else pure (arguments.map fun _ => none)
  match run files with
  | .ok outcome =>
    IO.print outcome.output
    IO.eprint outcome.errors
    if let some e := outcome.escaped then
      IO.eprintln e.message
    return outcome.status.toUInt32
  | .error e =>
    IO.eprintln e.message
    return 1
