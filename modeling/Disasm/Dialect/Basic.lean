import Disasm.OpCode.Table
import Disasm.Survey
/-!
# Dialects

A dialect is what the disassembler has to know of a machine: its opcodes, the
jumps of its instructions, and what is worth looking for in its code.
-/

namespace Disasm

/-- The language of a machine's code. -/
structure Dialect where
  name : String
  /-- The opcode that a byte stands for. -/
  opcode? : UInt8 → Option OpCode
  /-- The jump of an instruction, asked for when the index holds the
  instruction and those before it. -/
  note? : Instruction → OffsetIndex → Option JumpNote := fun _ _ => none
  /-- What a survey of the code looks for. -/
  categories : List Category := []

/-- The dialect whose opcodes are those of a table. -/
def Dialect.ofTable (name : String) (table : OpCodeTable)
    (note? : Instruction → OffsetIndex → Option JumpNote) (categories : List Category) :
    Dialect :=
  { name, opcode? := table.get?, note?, categories }

end Disasm
