import Disasm.Instruction
/-!
# Transfers of control in NEO code

Five opcodes transfer control. Four of them carry a signed distance of two
bytes, counted from the offset of the instruction itself; the fifth goes back
to the caller. A distance that leads out of the range of offsets makes no
jump.
-/

namespace Disasm

namespace Neo

/-- The name of the dialect. -/
def dialectName : String := "neo"

/-- How an instruction transfers control. -/
inductive Transfer
  | jump
  | call
  /-- It jumps if the top of the stack is `takenWhen`. -/
  | branch (takenWhen : Bool)
  | toCaller
deriving DecidableEq, Repr

/-- The transfer that the opcode of a byte makes. -/
def Transfer.ofByte? (byte : UInt8) : Option Transfer :=
  if byte = 0x62 then some .jump
  else if byte = 0x63 then some (.branch true)
  else if byte = 0x64 then some (.branch false)
  else if byte = 0x65 then some .call
  else if byte = 0x66 then some .toCaller
  else none

/-- A number as an offset, if there is such an offset. -/
def offset? (n : Int) : Option UInt32 :=
  if 0 ≤ n ∧ n < UInt32.size then some (UInt32.ofNat n.toNat) else none

/-- The offset that the instruction's operand leads to, if it is a distance of
two bytes. -/
def relativeTarget? (instruction : Instruction) : Option UInt32 := do
  let operand ← instruction.operand
  let distance ← (operand.signed 2).toOption
  offset? (instruction.offset.toNat + distance)

/-- A target as it stands in a comment. -/
def targetText (target : UInt32) : String :=
  " to 0x" ++ Hex.upperNumeral 4 target.toNat

/-- A jump of the dialect that depends on the machine. -/
def dynamicJump (branch : Branch) : Jump :=
  .dynamic { dialect := dialectName, branch }

/-- The note on a transfer to a known target. -/
def staticNote (verb : String) (target : UInt32) (index : OffsetIndex) : JumpNote :=
  ⟨.static target (index.indexOf? target), some (verb ++ targetText target)⟩

/-- The note on a branch. -/
def branchNote (takenWhen : Bool) (target : UInt32) : JumpNote :=
  ⟨dynamicJump (.conditional target takenWhen),
    some ((if takenWhen then "Jump [if]" else "Jump [ifnot]") ++ targetText target)⟩

/-- **The jump of an instruction**, with its comment. -/
def note? (instruction : Instruction) (index : OffsetIndex) : Option JumpNote :=
  match Transfer.ofByte? instruction.opcode.byte with
  | none => none
  | some .jump => (relativeTarget? instruction).map (staticNote "Jump" · index)
  | some .call => (relativeTarget? instruction).map (staticNote "Call" · index)
  | some (.branch takenWhen) => (relativeTarget? instruction).map (branchNote takenWhen)
  | some .toCaller => some ⟨dynamicJump .toCaller, none⟩

end Neo

end Disasm
