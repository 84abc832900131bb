/-!
# Settings

The choices a user has: whether jumps are commented, whether the places of
forward targets are filled in, whether the code is surveyed, and how many
instructions are read at most.
-/

namespace Disasm

/-- How code is disassembled. -/
structure Settings where
  /-- Jumps get the comments of the dialect. -/
  annotateJumps : Bool := true
  /-- Static jumps get the places of targets further on. -/
  resolveForwardJumps : Bool := true
  /-- The code is surveyed for the categories of the dialect. -/
  scanOccurrences : Bool := true
  /-- No more instructions than this are read. -/
  maxInstructions : Option UInt64 := none
deriving DecidableEq, Repr

end Disasm
