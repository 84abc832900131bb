/-!
# Opcodes

An opcode is a byte with a name, a description and the shape of the operand
that follows it.
-/

namespace Disasm

/-- How many bytes the count of a counted operand takes. -/
inductive CountWidth
  | one
  | two
  | four
deriving DecidableEq, Repr

/-- The width as a number of bytes. -/
def CountWidth.size : CountWidth → Nat
  | .one => 1
  | .two => 2
  | .four => 4

/-- What follows an opcode in the code. -/
inductive Shape
  /-- Nothing follows. -/
  | nullary
  /-- A payload of the given size follows. -/
  | fixed (size : UInt64)
  /-- A count of the given width follows, then a payload of that size. -/
  | counted (width : CountWidth)
  /-- A count of one to nine bytes follows, its first byte telling how many,
  then a payload of that size. -/
  | varCounted
deriving DecidableEq, Repr

/-- An opcode and what is known of it. -/
structure OpCode where
  /-- The byte it is written as. -/
  byte : UInt8
  name : String
  description : String
  /-- The shape of its operand. -/
  shape : Shape
deriving DecidableEq, Repr

end Disasm
