/-!
# Little-endian fields

A field is a list of bytes, least significant first. `value` reads it as a
sum of powers of 256, `word` as a 64-bit register filled byte by byte, and
`bytes` writes a number into a field of a given width. `signed` takes the
two's-complement reading of a value of a given width.
-/

namespace Disasm

namespace LittleEndian

/-- The number a field stands for: its bytes as digits to base 256. -/
def value : List UInt8 → Nat
  | [] => 0
  | b :: rest => b.toNat + 256 * value rest

/-- The number a field leaves in a 64-bit register: from the last byte to the
first, the register moves up by eight bits and takes the byte in. -/
def word (field : List UInt8) : UInt64 :=
  field.foldr (fun b register => (register <<< 8) ||| b.toUInt64) 0

/-- The field of `width` bytes that stands for `n`; what does not fit is
dropped. -/
def bytes : (width : Nat) → (n : Nat) → List UInt8
  | 0, _ => []
  | width + 1, n => UInt8.ofNat (n % 256) :: bytes width (n / 256)

/-- The two's-complement reading of the field: its value moved into the
range of signed numbers of as many bytes. -/
def signed (field : List UInt8) : Int :=
  Int.bmod (value field) (1 <<< (8 * field.length))

@[simp] theorem length_bytes (width n : Nat) : (bytes width n).length = width := by
  induction width generalizing n with
  | zero => rfl
  | succ width ih => simp [bytes, ih]

end LittleEndian

end Disasm
