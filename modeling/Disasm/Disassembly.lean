import Disasm.Survey
/-!
# Disassemblies

A disassembly is what is known of some code: its instructions, the index of
their offsets, and a survey of them.
-/

namespace Disasm

/-- Code taken apart. -/
structure Disassembly where
  instructions : List Instruction := []
  index : OffsetIndex := ∅
  survey : Survey := ∅

namespace Disassembly

/-- How many instructions there are. -/
def size (d : Disassembly) : Nat :=
  d.instructions.length

/-- The instruction at a place. -/
def get? (d : Disassembly) (place : Nat) : Option Instruction :=
  d.instructions[place]?

/-- The instruction that starts at an offset. -/
def at? (d : Disassembly) (offset : UInt32) : Option Instruction :=
  (d.index.indexOf? offset).bind d.get?

/-- The listing, one line for each instruction. -/
def listing (d : Disassembly) : String :=
  String.join (d.instructions.map fun instruction => instruction.text ++ "\n")

/-- The code again. -/
def encode (d : Disassembly) : List UInt8 :=
  d.instructions.flatMap Instruction.encode

/-- How many bytes the instructions take. -/
def encodedSize (d : Disassembly) : Nat :=
  d.instructions.foldl (fun total instruction => total + instruction.size) 0

/-! ## Jumps -/

/-- Looks up the place of the instruction's static target, if it is not known
yet; tells whether it was found. -/
def settleJump (index : OffsetIndex) (instruction : Instruction) : Instruction × Bool :=
  match instruction.jump with
  | none => (instruction, false)
  | some jump =>
    let (jump, found) := jump.settle index
    ({ instruction with jump := some jump }, found)

/-- Fills in the places of static targets that are not known yet; tells how
many were found. -/
def resolvePendingJumps (d : Disassembly) : Nat × Disassembly :=
  let settled := d.instructions.map (settleJump d.index)
  (settled.countP (·.2), { d with instructions := settled.map (·.1) })

/-- Asks the instruction at a place for the target of its jump. -/
def resolve? (d : Disassembly) (place : Nat) (context : Option Context) :
    Option (Option UInt32 × Disassembly) :=
  (d.get? place).map fun instruction =>
    let (target, instruction) := instruction.resolve context
    (target, { d with instructions := d.instructions.set place instruction })

/-- Asks every instruction for the target of its jump. -/
def resolveAll (d : Disassembly) (context : Option Context) :
    List (Option UInt32) × Disassembly :=
  let resolved := d.instructions.map (·.resolve context)
  (resolved.map (·.1), { d with instructions := resolved.map (·.2) })

/-! ## Occurrences -/

/-- Takes a category into the survey; tells whether its name was free. -/
def register (d : Disassembly) (category : Category) : Bool × Disassembly :=
  let (registered, survey) := d.survey.register category
  (registered, { d with survey })

/-- Takes categories into the survey. -/
def registerAll (d : Disassembly) (categories : List Category) : Disassembly :=
  { d with survey := d.survey.registerAll categories }

/-- Surveys the instructions; tells how many occurrences there are. -/
def scan (d : Disassembly) : Nat × Disassembly :=
  let (found, survey) := d.survey.scan d.instructions
  (found, { d with survey })

end Disassembly

end Disasm
