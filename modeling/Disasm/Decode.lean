import Disasm.DecodeError
import Disasm.Dialect.Basic
import Disasm.Disassembly
import Disasm.Settings.Basic
/-!
# Taking code apart

Decoding goes over the code twice. The first pass cuts it: from the start on,
each opcode with its operand is one instruction, and the next one begins
right after it. All errors come from this pass. The second pass goes through
the instructions in order, enters each into the index of offsets and asks the
dialect for its jump; at that moment the index knows the instruction and
those before it. Last, if the settings say so, the places of jump targets
further on are filled in.
-/

namespace Disasm

variable (dialect : Dialect) (settings : Settings)

/-! ## Cutting -/

/-- Whether the settings allow no instruction at a place. -/
def Settings.atLimit? (settings : Settings) (place : Nat) : Option UInt64 :=
  settings.maxInstructions.filter fun limit => decide (limit.toNat ≤ place)

/-- The instruction at `pos`, which is to be the one numbered `number`, and the
position right after it. -/
def cutOne (code : Code) (pos number : Nat) : Except DecodeError (Instruction × Nat) :=
  match settings.atLimit? number with
  | some limit => .error (.instructionLimit limit)
  | none => do
    let offset := UInt32.ofNat pos
    let byte ← code.byteAt pos
    match dialect.opcode? byte with
    | none => throw (.unknownOpCode offset byte)
    | some opcode =>
      let start ← Position.add pos 1
      let (operand, consumed) ←
        (Operand.read opcode.shape code start).mapError (·.at offset opcode byte)
      let size ← Position.add 1 consumed
      let next ← Position.add pos size
      return ({ number, offset, opcode, operand }, next)

/-- The instructions from `pos` on, after those in `done`, in at most `steps`
steps. -/
def cutFrom (code : Code) : (steps pos : Nat) → (done : Array Instruction) →
    Except DecodeError (Array Instruction)
  | steps, pos, done =>
    if pos < code.size then
      match steps with
      | 0 => .error (.trap .stalled)
      | steps + 1 =>
        match cutOne dialect settings code pos done.size with
        | .error e => .error e
        | .ok (instruction, next) => cutFrom code steps next (done.push instruction)
    else .ok done

/-- The instructions of the code, without jumps and comments. Every step takes
a byte or more, so there are as many steps as bytes. -/
def cut (code : Code) : Except DecodeError (List Instruction) :=
  Array.toList <$> cutFrom dialect settings code code.size 0 #[]

/-! ## Linking -/

/-- The instruction with what the dialect notes about its jump. -/
def applyNote (instruction : Instruction) : Option JumpNote → Instruction
  | none => instruction
  | some note =>
    let instruction :=
      if settings.annotateJumps then
        match note.comment with
        | some comment => instruction.annotate comment
        | none => instruction
      else instruction
    { instruction with jump := some note.jump }

/-- The instructions linked so far, and the index of their offsets. -/
structure Linked where
  instructions : Array Instruction := #[]
  index : OffsetIndex := ∅

/-- Links one more instruction: it enters the index, and then gets its jump. -/
def linkOne (linked : Linked) (instruction : Instruction) : Linked :=
  let index := (linked.index.insert instruction.offset instruction.number).2
  ⟨linked.instructions.push (applyNote settings instruction (dialect.note? instruction index)),
    index⟩

/-- The instructions with their jumps, and the index of their offsets. -/
def link (instructions : List Instruction) : Disassembly :=
  let linked := instructions.foldl (linkOne dialect settings) {}
  { instructions := linked.instructions.toList, index := linked.index }

/-! ## Decoding -/

/-- **The instructions of the code**, linked, with no category registered
yet. -/
def decode (code : Code) : Except DecodeError Disassembly :=
  if UInt32.size ≤ code.size then .error (.streamTooLarge code.size)
  else do
    let instructions ← cut dialect settings code
    let d := link dialect settings instructions
    return if settings.resolveForwardJumps then d.resolvePendingJumps.2 else d

/-- **The disassembly of the code**: decoded, with the categories of the
dialect registered and, if the settings say so, surveyed. -/
def disassemble (code : Code) : Except DecodeError Disassembly := do
  let d ← decode dialect settings code
  let d := d.registerAll dialect.categories
  return if settings.scanOccurrences then d.scan.2 else d

/-- The disassembly of code given as hexadecimal text. -/
def disassembleHex (text : String) : Except DecodeError Disassembly := do
  let code ← (Hex.decode text).mapError fun refusal => .invalidHex refusal.message
  disassemble dialect settings code

end Disasm
