import Disasm.Text.Blank
import Disasm.Text.Quoted
/-!
# Hexadecimal text

Two uses of the sixteen digits: numbers padded to a width, as they stand in
listings and messages, and byte strings, two digits for each byte.

`decode` reads a byte string from text. Blanks around it and one leading `0x`
or `0X` are dropped; what is left is looked at as UTF-8 bytes. An odd number
of them is the first thing refused, then the first that is not a digit.
-/

namespace Disasm

namespace Hex

/-! ## Numbers -/

/-- The digits of `n` in lower case, with zeros in front up to `width`
digits. -/
def numeral (width n : Nat) : String :=
  String.ofList ((Nat.toDigits 16 n).leftpad width '0')

/-- The digits of `n` in upper case, with zeros in front up to `width`
digits. -/
def upperNumeral (width n : Nat) : String :=
  String.ofList (((Nat.toDigits 16 n).map Char.toUpper).leftpad width '0')

/-- An offset as the listing shows it: at least two digits, in a column of
four. -/
def column (offset : Nat) : String :=
  String.ofList ((numeral 2 offset).toList.leftpad 4 ' ')

/-! ## Writing bytes -/

/-- The two digits of a byte, the high one first. -/
def pair (b : UInt8) : List Char :=
  [Nat.digitChar (b.toNat / 16), Nat.digitChar (b.toNat % 16)]

/-- A byte string in lower-case digits. -/
def ofBytes (bytes : List UInt8) : String :=
  String.ofList (bytes.flatMap pair)

/-! ## Reading bytes -/

/-- Why a text is no hexadecimal byte string. -/
inductive Refusal
  /-- The digits do not pair up. -/
  | oddLength
  /-- The byte at `position` is not a digit. -/
  | notADigit (byte : UInt8) (position : Nat)
deriving DecidableEq, Repr

/-- The wording of a refusal; a byte is shown as the character of the same
number. -/
def Refusal.message : Refusal → String
  | .oddLength => "Odd number of digits"
  | .notADigit byte position =>
    "Invalid character " ++ Text.quotedChar (Char.ofNat byte.toNat)
      ++ " at position " ++ toString position

/-- The value of a digit, given as the byte of its character: `0` to `9`, `a`
to `f` or `A` to `F`. -/
def digit? (b : UInt8) : Option UInt8 :=
  if 0x30 ≤ b ∧ b ≤ 0x39 then some (b - 0x30)
  else if 0x61 ≤ b ∧ b ≤ 0x66 then some (b - 0x61 + 10)
  else if 0x41 ≤ b ∧ b ≤ 0x46 then some (b - 0x41 + 10)
  else none

/-- The bytes that digits stand for, taken two at a time, after those in
`done`. -/
def join (done : Array UInt8) : List UInt8 → Array UInt8
  | high :: low :: rest => join (done.push (16 * high + low)) rest
  | _ => done

/-- The byte string that a run of digits stands for. -/
def decodeDigits (digits : List UInt8) : Except Refusal (Array UInt8) :=
  if digits.length % 2 = 1 then .error .oddLength
  else
    match digits.findIdx? fun b => (digit? b).isNone with
    | some position => .error (.notADigit (digits.getD position 0) position)
    | none => .ok (join #[] (digits.filterMap digit?))

/-- The text without one leading `0x` or `0X`. -/
def dropMarker : List Char → List Char
  | '0' :: 'x' :: rest => rest
  | '0' :: 'X' :: rest => rest
  | text => text

/-- **The byte string a text stands for.** -/
def decode (text : String) : Except Refusal (Array UInt8) :=
  decodeDigits ((dropMarker (Text.trim text.toList)).flatMap String.utf8EncodeChar)

end Hex

end Disasm
