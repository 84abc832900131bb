import Disasm.OpCode.Table
/-!
# The NEO instruction set

The 184 opcodes of the NEO virtual machine, group by group, and the table of
all of them.
-/

namespace Disasm

namespace Neo

/-- An entry of the instruction set. -/
def entry (byte : UInt8) (name description : String) (shape : Shape := .nullary) : OpCode :=
  { byte, name, description, shape }

/-- The opcode that pushes the `size` bytes after it; its byte is that
size. -/
def pushBytes (size : Nat) : OpCode :=
  entry (UInt8.ofNat size) ("PUSHBYTES" ++ toString size)
    ("The next " ++ toString size ++ " bytes are pushed onto the stack.")
    (.fixed (UInt64.ofNat size))

/-- The opcodes that push 1 to 75 bytes. -/
def pushes : List OpCode :=
  (List.range' 1 75).map pushBytes

/-- Pushing constants. -/
def constants : List OpCode :=
  [entry 0x00 "PUSH0" "An empty array of bytes is pushed onto the stack.",
   entry 0x4c "PUSHDATA1"
      "The next byte contains the number of bytes to be pushed onto the stack." (.counted .one),
   entry 0x4d "PUSHDATA2"
      "The next two bytes contain the number of bytes to be pushed onto the stack." (.counted .two),
   entry 0x4e "PUSHDATA4"
      "The next four bytes contain the number of bytes to be pushed onto the stack."
      (.counted .four),
   entry 0x4f "PUSHM1" "The number -1 is pushed onto the stack.",
   entry 0x51 "PUSH1" "The number 1 is pushed onto the stack.",
   entry 0x52 "PUSH2" "The number 2 is pushed onto the stack.",
   entry 0x53 "PUSH3" "The number 3 is pushed onto the stack.",
   entry 0x54 "PUSH4" "The number 4 is pushed onto the stack.",
   entry 0x55 "PUSH5" "The number 5 is pushed onto the stack.",
   entry 0x56 "PUSH6" "The number 6 is pushed onto the stack.",
   entry 0x57 "PUSH7" "The number 7 is pushed onto the stack.",
   entry 0x58 "PUSH8" "The number 8 is pushed onto the stack.",
   entry 0x59 "PUSH9" "The number 9 is pushed onto the stack.",
   entry 0x5a "PUSH10" "The number 10 is pushed onto the stack.",
   entry 0x5b "PUSH11" "The number 11 is pushed onto the stack.",
   entry 0x5c "PUSH12" "The number 12 is pushed onto the stack.",
   entry 0x5d "PUSH13" "The number 13 is pushed onto the stack.",
   entry 0x5e "PUSH14" "The number 14 is pushed onto the stack.",
   entry 0x5f "PUSH15" "The number 15 is pushed onto the stack.",
   entry 0x60 "PUSH16" "The number 16 is pushed onto the stack."]

/-- Flow of control. -/
def flow : List OpCode :=
  [entry 0x61 "NOP" "Does nothing.",
   entry 0x62 "JMP" "Jumps by the signed 16-bit offset relative to this instruction." (.fixed 2),
   entry 0x63 "JMPIF" "Jumps if the top stack item is true." (.fixed 2),
   entry 0x64 "JMPIFNOT" "Jumps if the top stack item is false." (.fixed 2),
   entry 0x65 "CALL" "Calls the function at the signed 16-bit relative offset." (.fixed 2),
   entry 0x66 "RET" "Returns to the calling frame.",
   entry 0x67 "APPCALL" "Calls the contract identified by the 20-byte script hash." (.fixed 20),
   entry 0x68 "SYSCALL" "Calls the interop service named by the argument." .varCounted,
   entry 0x69 "TAILCALL"
      "Tail-calls the contract identified by the 20-byte script hash." (.fixed 20)]

/-- Work on the stack. -/
def stack : List OpCode :=
  [entry 0x6a "DUPFROMALTSTACK" "Duplicates the top alt stack item onto the main stack.",
   entry 0x6b "TOALTSTACK" "Moves the top item to the alt stack.",
   entry 0x6c "FROMALTSTACK" "Moves the top alt stack item to the main stack.",
   entry 0x6d "XDROP" "Removes the item n back in the stack.",
   entry 0x72 "XSWAP" "Swaps the top item with the item n back.",
   entry 0x73 "XTUCK" "Copies the top item to position n.",
   entry 0x74 "DEPTH" "Puts the number of stack items onto the stack.",
   entry 0x75 "DROP" "Removes the top stack item.",
   entry 0x76 "DUP" "Duplicates the top stack item.",
   entry 0x77 "NIP" "Removes the second-to-top stack item.",
   entry 0x78 "OVER" "Copies the second-to-top item to the top.",
   entry 0x79 "PICK" "Copies the item n back to the top.",
   entry 0x7a "ROLL" "Moves the item n back to the top.",
   entry 0x7b "ROT" "Rotates the top three items to the left.",
   entry 0x7c "SWAP" "Swaps the top two items.",
   entry 0x7d "TUCK" "Copies the top item before the second-to-top item."]

/-- Byte strings. -/
def splice : List OpCode :=
  [entry 0x7e "CAT" "Concatenates two byte arrays.",
   entry 0x7f "SUBSTR" "Returns a section of a byte array.",
   entry 0x80 "LEFT" "Keeps only characters left of the given point.",
   entry 0x81 "RIGHT" "Keeps only characters right of the given point.",
   entry 0x82 "SIZE" "Pushes the length of the top byte array."]

/-- Bitwise logic. -/
def bitwise : List OpCode :=
  [entry 0x83 "INVERT" "Flips all bits of the input.",
   entry 0x84 "AND" "Boolean and between each bit.",
   entry 0x85 "OR" "Boolean or between each bit.",
   entry 0x86 "XOR" "Boolean exclusive or between each bit.",
   entry 0x87 "EQUAL" "Returns 1 if the inputs are exactly equal."]

/-- Arithmetic. -/
def arithmetic : List OpCode :=
  [entry 0x8b "INC" "Adds 1 to the input.",
   entry 0x8c "DEC" "Subtracts 1 from the input.",
   entry 0x8d "SIGN" "Pushes the sign of the input.",
   entry 0x8f "NEGATE" "Flips the sign of the input.",
   entry 0x90 "ABS" "Makes the input positive.",
   entry 0x91 "NOT" "Boolean negation.",
   entry 0x92 "NZ" "Returns 0 if the input is 0, 1 otherwise.",
   entry 0x93 "ADD" "a is added to b.",
   entry 0x94 "SUB" "b is subtracted from a.",
   entry 0x95 "MUL" "a is multiplied by b.",
   entry 0x96 "DIV" "a is divided by b.",
   entry 0x97 "MOD" "Returns the remainder after dividing a by b.",
   entry 0x98 "SHL" "Shifts a left b bits.",
   entry 0x99 "SHR" "Shifts a right b bits.",
   entry 0x9a "BOOLAND" "Returns 1 if both a and b are not 0.",
   entry 0x9b "BOOLOR" "Returns 1 if a or b is not 0.",
   entry 0x9c "NUMEQUAL" "Returns 1 if the numbers are equal.",
   entry 0x9e "NUMNOTEQUAL" "Returns 1 if the numbers are not equal.",
   entry 0x9f "LT" "Returns 1 if a is less than b.",
   entry 0xa0 "GT" "Returns 1 if a is greater than b.",
   entry 0xa1 "LTE" "Returns 1 if a is less than or equal to b.",
   entry 0xa2 "GTE" "Returns 1 if a is greater than or equal to b.",
   entry 0xa3 "MIN" "Returns the smaller of a and b.",
   entry 0xa4 "MAX" "Returns the larger of a and b.",
   entry 0xa5 "WITHIN" "Returns 1 if x is within the specified range."]

/-- Hashes and signatures. -/
def crypto : List OpCode :=
  [entry 0xa7 "SHA1" "The input is hashed using SHA-1.",
   entry 0xa8 "SHA256" "The input is hashed using SHA-256.",
   entry 0xa9 "HASH160" "The input is hashed using SHA-256 then RIPEMD-160.",
   entry 0xaa "HASH256" "The input is hashed twice with SHA-256.",
   entry 0xac "CHECKSIG" "Verifies a signature against the script container.",
   entry 0xad "VERIFY" "Verifies a signature against a message.",
   entry 0xae "CHECKMULTISIG" "Verifies several signatures against public keys."]

/-- Arrays and structs. -/
def arrays : List OpCode :=
  [entry 0xc0 "ARRAYSIZE" "Pushes the size of the array.",
   entry 0xc1 "PACK" "Packs n items into an array.",
   entry 0xc2 "UNPACK" "Unpacks an array onto the stack.",
   entry 0xc3 "PICKITEM" "Pushes the item at the given index or key.",
   entry 0xc4 "SETITEM" "Sets the item at the given index or key.",
   entry 0xc5 "NEWARRAY" "Creates an array of the given size.",
   entry 0xc6 "NEWSTRUCT" "Creates a struct of the given size.",
   entry 0xc7 "NEWMAP" "Creates an empty map.",
   entry 0xc8 "APPEND" "Appends an item to an array.",
   entry 0xc9 "REVERSE" "Reverses an array in place.",
   entry 0xca "REMOVE" "Removes the item at the given index or key.",
   entry 0xcb "HASKEY" "Pushes whether the collection has the given key.",
   entry 0xcc "KEYS" "Pushes the keys of a map.",
   entry 0xcd "VALUES" "Pushes the values of a collection."]

/-- Calls with an isolated stack. -/
def invocation : List OpCode :=
  [entry 0xe0 "CALL_I"
      "Calls a relative function with explicit return and parameter counts." (.fixed 4),
   entry 0xe1 "CALL_E" "Calls a contract with explicit return and parameter counts." (.fixed 22),
   entry 0xe2 "CALL_ED" "Calls a contract taken from the stack." (.fixed 2),
   entry 0xe3 "CALL_ET"
      "Tail-calls a contract with explicit return and parameter counts." (.fixed 22),
   entry 0xe4 "CALL_EDT" "Tail-calls a contract taken from the stack." (.fixed 2)]

/-- Exceptions. -/
def exceptions : List OpCode :=
  [entry 0xf0 "THROW" "Halts execution with a fault.",
   entry 0xf1 "THROWIFNOT" "Faults unless the top stack item is true."]

/-- The opcodes of the NEO virtual machine. -/
def opcodes : List OpCode :=
  pushes ++ constants ++ flow ++ stack ++ splice ++ bitwise
    ++ arithmetic ++ crypto ++ arrays ++ invocation ++ exceptions

/-- The table of the NEO opcodes. -/
def table : OpCodeTable :=
  OpCodeTable.empty.extend opcodes

end Neo

end Disasm
