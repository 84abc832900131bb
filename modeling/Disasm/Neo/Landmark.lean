import Disasm.Survey
/-!
# Landmarks in NEO code

What is worth looking for in a script: the system calls it makes, by name,
and the 160-bit and 256-bit hashes it carries. A hash is written with its
bytes in reverse, the most significant first.
-/

namespace Disasm

namespace Neo

/-- The byte of the opcode that makes a system call. -/
def syscallByte : UInt8 := 0x68

/-- The name of the system call that an instruction makes. -/
def syscallLabel? (instruction : Instruction) : Option String :=
  if instruction.opcode.byte = syscallByte then instruction.operand.map Operand.ascii else none

/-- The hash of `size` bytes that some bytes are. -/
def hashLabel? (size : Nat) (payload : List UInt8) : Option String :=
  if payload.length = size then some ("0x" ++ Hex.ofBytes payload.reverse) else none

/-- The hash of 160 bits that some bytes are. -/
def hash160Label? (payload : List UInt8) : Option String :=
  hashLabel? 20 payload

/-- The hash of 256 bits that some bytes are. -/
def hash256Label? (payload : List UInt8) : Option String :=
  hashLabel? 32 payload

/-- What a survey of NEO code looks for. -/
def categories : List Category :=
  [⟨"SysCalls", syscallLabel?⟩,
   ⟨"UInt160-Addresses", fun i => i.operand.bind fun operand => hash160Label? operand.payload⟩,
   ⟨"UInt256-Addresses", fun i => i.operand.bind fun operand => hash256Label? operand.payload⟩]

end Neo

end Disasm
