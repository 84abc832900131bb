import Disasm.CommandLine
/-!
# The program

The command line with its arguments, its environment and its files.
-/

namespace Disasm

/-- The contents of a file, if it can be read. -/
def contentsOf (path : String) : IO (Option ByteArray) :=
  try
    return some (← IO.FS.readBinFile path)
  catch _ => return none

end Disasm

open Disasm in
/-- Runs the command on the arguments and the environment of the process. -/
def main (arguments : List String) : IO UInt32 := do
  let value ← IO.getEnv Settings.variableName
  let contents ← match Settings.filePath? value with
    | some path => contentsOf path
    | none => pure none
  let program := toString (← IO.appPath)
  let outcome := CommandLine.run arguments (Settings.ofEnvironment value fun _ => contents) program
  IO.eprint outcome.complaint
  IO.print outcome.output
  return outcome.exitCode.toUInt32
