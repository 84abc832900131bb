import Disasm.Jump
import Disasm.Operand.Basic
/-!
# Instructions

An instruction is an opcode with its operand, at its place in the code. A
dialect may add a jump and a comment to it; everything else about it is fixed
by the code.
-/

namespace Disasm

/-- One instruction of the code. -/
structure Instruction where
  /-- Its place among the instructions. -/
  number : Nat
  /-- The position of its first byte. -/
  offset : UInt32
  opcode : OpCode
  operand : Option Operand := none
  comment : Option String := none
  jump : Option Jump := none
deriving DecidableEq, Repr

/-- What a dialect adds to an instruction that transfers control. -/
structure JumpNote where
  jump : Jump
  comment : Option String := none
deriving DecidableEq, Repr

namespace Instruction

/-- The instruction as it is written in code. -/
def encode (instruction : Instruction) : List UInt8 :=
  instruction.opcode.byte :: (instruction.operand.map Operand.encode).getD []

/-- How many bytes the instruction takes in code. -/
def size (instruction : Instruction) : Nat :=
  1 + (instruction.operand.map Operand.size).getD 0

/-- The position right after the instruction. -/
def endOffset (instruction : Instruction) : Nat :=
  instruction.offset.toNat + instruction.size

@[simp] theorem length_encode (instruction : Instruction) :
    instruction.encode.length = instruction.size := by
  cases h : instruction.operand <;> simp [encode, size, h, Nat.add_comm]

/-- The instruction with a comment, unless it already has one that says
something. -/
def annotate (instruction : Instruction) (comment : String) : Instruction :=
  match instruction.comment with
  | none | some "" => { instruction with comment := some comment }
  | some _ => instruction

/-- The target of the instruction's jump, and the instruction after the
question; no target without a jump. -/
def resolve (instruction : Instruction) (context : Option Context) :
    Option UInt32 × Instruction :=
  match instruction.jump with
  | none => (none, instruction)
  | some jump =>
    let (target, jump) := jump.resolve context instruction.number
    (target, { instruction with jump := some jump })

/-- What the listing shows between brackets: the operand or, when it has
nothing to show, the name of the opcode. -/
def operandText (instruction : Instruction) : String :=
  match instruction.operand with
  | some operand => if operand.payload.isEmpty then instruction.opcode.name else operand.text
  | none => instruction.opcode.name

/-- What the listing shows at the end of the line: the comment, if it says
something. -/
def commentText (instruction : Instruction) : String :=
  match instruction.comment with
  | none | some "" => ""
  | some comment => " # " ++ comment

/-- **The line of the listing**, without its end. -/
def text (instruction : Instruction) : String :=
  "[" ++ Hex.column instruction.offset.toNat ++ "] " ++ instruction.opcode.name
    ++ " [" ++ instruction.operandText ++ "]" ++ instruction.commentText

end Instruction

end Disasm
