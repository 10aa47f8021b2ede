import Intake.Command.Invocation
/-!
# The command line

Reads the files that an invocation names, runs it and prints the answer.  The exit status is 0
for a valid input, 1 for an invalid one and for a failure, 2 for words that are no invocation.
-/

namespace Intake.Command

/-- The texts of the files that can be read. -/
def readFiles (names : List String) : IO (Table String) :=
  names.foldlM
    (fun files (name : String) => do
      try return Table.put name (← IO.FS.readFile name) files
      catch _ => return files)
    []

end Intake.Command

open Intake.Command in
def main (words : List String) : IO UInt32 := do
  match Invocation.ofWords words with
  | none =>
    IO.eprint Invocation.usage
    return 2
  | some invocation =>
    let files ← readFiles invocation.fileNames
    match invocation.run files with
    | .ok answer =>
      IO.print answer.output
      return if answer.valid then 0 else 1
    | .error failure =>
      IO.eprintln ("Error: " ++ failure.message)
      return 1
