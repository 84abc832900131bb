import Disasm.Bytes.LittleEndian
import Disasm.OpCode.Basic
import Disasm.Text.Hex
/-!
# Operands

An operand is the payload that follows an opcode, together with the length
field that announced it. The field is kept as it stood in the code, because a
length can be written in more than one way; with it the operand can be
written back byte for byte.

The views of a payload are its little-endian readings of one, two, four or
eight bytes, its characters, and its hexadecimal text.
-/

namespace Disasm

/-- An operand of an instruction. -/
structure Operand where
  shape : Shape
  /-- The bytes that announced the length of the payload. -/
  lengthField : List UInt8
  payload : List UInt8
deriving DecidableEq, Repr

namespace Operand

/-- The operand of fixed size with the given payload. -/
def ofBytes (payload : List UInt8) : Operand :=
  ⟨.fixed (UInt64.ofNat payload.length), [], payload⟩

/-- The operand as it is written in code. -/
def encode (operand : Operand) : List UInt8 :=
  operand.lengthField ++ operand.payload

/-- How many bytes the operand takes in code. -/
def size (operand : Operand) : Nat :=
  operand.lengthField.length + operand.payload.length

@[simp] theorem length_encode (operand : Operand) : operand.encode.length = operand.size := by
  simp [encode, size]

/-! ## Views of the payload -/

/-- A payload of `actual` bytes was to be read as a number of `expected`
bytes. -/
structure WidthMismatch where
  expected : Nat
  actual : Nat
deriving DecidableEq, Repr

/-- The wording of a width mismatch. -/
def WidthMismatch.message (e : WidthMismatch) : String :=
  "Argumento tem " ++ toString e.actual ++ " bytes, a visão exige exatamente "
    ++ toString e.expected

/-- The payload, if it has exactly `width` bytes. -/
def exactly (operand : Operand) (width : Nat) : Except WidthMismatch (List UInt8) :=
  if operand.payload.length = width then .ok operand.payload
  else .error ⟨width, operand.payload.length⟩

/-- The payload as an unsigned number of `width` bytes. -/
def unsigned (operand : Operand) (width : Nat) : Except WidthMismatch Nat :=
  (operand.exactly width).map LittleEndian.value

/-- The payload as a signed number of `width` bytes. -/
def signed (operand : Operand) (width : Nat) : Except WidthMismatch Int :=
  (operand.exactly width).map LittleEndian.signed

/-- The payload as characters: a byte below 0x80 is itself, any other a
question mark. -/
def ascii (operand : Operand) : String :=
  String.ofList (operand.payload.map fun b => if b < 0x80 then Char.ofNat b.toNat else '?')

/-- The payload in hexadecimal digits. -/
def hex (operand : Operand) : String :=
  Hex.ofBytes operand.payload

/-- The operand as the listing shows it; nothing for an empty payload. -/
def text (operand : Operand) : String :=
  if operand.payload.isEmpty then "" else "0x" ++ operand.hex

end Operand

end Disasm
