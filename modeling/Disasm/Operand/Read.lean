import Disasm.Bytes.Code
import Disasm.Operand.Basic
/-!
# Reading operands

`Operand.read` takes the operand of a given shape from code at a given
position. It first finds the length field and the size that the field
announces. Then it refuses, in this order, a length field that the code does
not hold to its end, a size that no position can reach, and a payload that
the code does not hold to its end.
-/

namespace Disasm

/-- Why no operand can be read. -/
inductive ReadError
  /-- `needed` bytes are wanted and only `available` are left. -/
  | truncated (needed available : Nat)
  /-- The length field announces `declared` bytes, which end beyond the last
  position. -/
  | oversized (declared : UInt64) (available : Nat)
  /-- The code was asked for bytes it does not have. -/
  | trap (cause : Trap)
deriving DecidableEq, Repr

instance : MonadLift (Except Trap) (Except ReadError) :=
  ⟨fun x => x.mapError .trap⟩

namespace Operand

/-- The `size` bytes at `pos`, of the `available` that are left there. -/
def takeField (code : Code) (pos size available : Nat) : Except ReadError (List UInt8) :=
  if available < size then .error (.truncated size available)
  else do
    let stop ← Position.add pos size
    code.slice pos stop

/-- How many bytes follow the first byte of a variable count; after any other
first byte there are none, and the byte is the count itself. -/
def markerSize (marker : UInt8) : Nat :=
  if marker = 0xfd then 2
  else if marker = 0xfe then 4
  else if marker = 0xff then 8
  else 0

/-- A length field at a given place: how many bytes it takes, and the size it
announces. -/
structure Header where
  fieldSize : Nat
  declared : UInt64
deriving DecidableEq, Repr

/-- The length field of a variable count. When its later bytes are missing,
the whole field is what was needed. -/
def readVarCount (code : Code) (pos available : Nat) : Except ReadError Header := do
  let _ ← takeField code pos 1 available
  let marker ← code.byteAt pos
  if markerSize marker = 0 then
    return ⟨1, marker.toUInt64⟩
  else
    let start ← Position.add pos 1
    let left ← Position.sub available 1
    match takeField code start (markerSize marker) left with
    | .ok field => return ⟨1 + markerSize marker, LittleEndian.word field⟩
    | .error (.truncated needed _) => throw (.truncated (← Position.add needed 1) available)
    | .error e => throw e

/-- The length field of an operand of the given shape; none if nothing is to
be read. -/
def readHeader (shape : Shape) (code : Code) (pos available : Nat) :
    Except ReadError (Option Header) :=
  match shape with
  | .nullary => .ok none
  | .fixed size => .ok (some ⟨0, size⟩)
  | .counted width => do
    let field ← takeField code pos width.size available
    return some ⟨width.size, LittleEndian.word field⟩
  | .varCounted => some <$> readVarCount code pos available

/-- The operand that a length field announces, once the field is known. -/
def readPayload (shape : Shape) (code : Code) (pos available : Nat) (header : Header) :
    Except ReadError (Operand × Nat) :=
  let needed := header.declared.toNat + header.fieldSize
  if Position.count ≤ needed then .error (.oversized header.declared available)
  else if available < needed then .error (.truncated needed available)
  else do
    let middle ← Position.add pos header.fieldSize
    let stop ← Position.add pos needed
    let lengthField ← code.slice pos middle
    let payload ← code.slice middle stop
    return (⟨shape, lengthField, payload⟩, needed)

/-- **The operand of the given shape at `pos`**, if the shape has one, and how
many bytes it takes. -/
def read (shape : Shape) (code : Code) (pos : Nat) :
    Except ReadError (Option Operand × Nat) := do
  let available := code.size - pos
  match ← readHeader shape code pos available with
  | none => return (none, 0)
  | some header =>
    let (operand, size) ← readPayload shape code pos available header
    return (some operand, size)

end Operand

end Disasm
