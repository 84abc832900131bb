import Disasm.Decode
import Disasm.Neo.Dialect
import Disasm.Settings.Source
/-!
# The command line

The command takes one script in hexadecimal digits. It prints the listing
and, for each category in which something was found, the occurrences with
their offsets.
-/

namespace Disasm

namespace CommandLine

/-- How a run of the command ends. -/
structure Outcome where
  exitCode : UInt8
  output : String := ""
  complaint : String := ""
deriving DecidableEq, Repr

/-- A run that ends with an error, which may have another one as its cause. -/
def failure (message : String) (cause : Option String) : Outcome :=
  let reason := (cause.map ("\n\nCaused by:\n    " ++ ·)).getD ""
  { exitCode := 1, complaint := "Error: " ++ message ++ reason ++ "\n" }

/-- The lines for the occurrences of a category: nothing if there are none. -/
def sectionText (d : Disassembly) (collection : Collection) : String :=
  if collection.found.isEmpty then ""
  else
    let lines := collection.found.toList.map fun occurrence =>
      let offset := ((d.get? occurrence.instruction).map (·.offset)).getD 0
      "  [" ++ Hex.numeral 4 offset.toNat ++ "] " ++ occurrence.label ++ "\n"
    "\n" ++ collection.name ++ " (" ++ toString collection.found.size ++ ")\n" ++ String.join lines

/-- What the command prints about a disassembly. -/
def report (d : Disassembly) : String :=
  d.listing ++ String.join (d.survey.collections.map (sectionText d))

/-- **A run of the command** on its arguments, with the settings of its
environment and the name that it was called by. -/
def run (arguments : List String) (settings : Except SettingsError Settings)
    (program : String := "disassemble") : Outcome :=
  match arguments with
  | [] => { exitCode := 1, complaint := "Usage: " ++ program ++ " <SCRIPT_HEX>\n" }
  | script :: _ =>
    match settings with
    | .error e => failure e.message e.cause
    | .ok settings =>
      match disassembleHex Neo.dialect settings script with
      | .error e => failure e.message none
      | .ok d => { exitCode := 0, output := report d }

end CommandLine

end Disasm
