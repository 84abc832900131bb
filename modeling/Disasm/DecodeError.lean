import Disasm.Operand.Read
/-!
# Decoding errors

Why code cannot be disassembled, and the wording of each reason.
-/

namespace Disasm

/-- Why code cannot be disassembled. -/
inductive DecodeError
  /-- The byte at `offset` is no opcode. -/
  | unknownOpCode (offset : UInt32) (byte : UInt8)
  /-- The operand of the instruction at `offset` is not there to its end. -/
  | truncatedOperand (offset : UInt32) (byte : UInt8) (opcode : String) (needed available : Nat)
  /-- The operand of the instruction at `offset` is larger than any code. -/
  | oversizedOperand (offset : UInt32) (byte : UInt8) (opcode : String) (declared : UInt64)
      (available : Nat)
  /-- There are more instructions than the settings allow. -/
  | instructionLimit (limit : UInt64)
  /-- Offsets cannot address all of the code. -/
  | streamTooLarge (size : Nat)
  /-- The text of the code is not hexadecimal. -/
  | invalidHex (reason : String)
  /-- The code was asked for bytes it does not have. -/
  | trap (cause : Trap)
deriving DecidableEq, Repr

instance : MonadLift (Except Trap) (Except DecodeError) :=
  ⟨fun x => x.mapError .trap⟩

/-- The wording of a trap. -/
def Trap.message : Trap → String
  | .outOfRange start stop =>
    "Bytes " ++ toString start ++ " a " ++ toString stop ++ " fora do stream"
  | .overflow left right =>
    "Soma " ++ toString left ++ " + " ++ toString right ++ " fora do alcance"
  | .underflow left right =>
    "Diferença " ++ toString left ++ " - " ++ toString right ++ " fora do alcance"
  | .stalled => "Stream não consumido"

/-- Where an operand error happened: the opcode, its byte and its offset. -/
def DecodeError.place (offset : UInt32) (byte : UInt8) (opcode : String) : String :=
  opcode ++ " (0x" ++ Hex.numeral 2 byte.toNat ++ ") no offset 0x" ++ Hex.numeral 4 offset.toNat

/-- The wording of a decoding error. -/
def DecodeError.message : DecodeError → String
  | .unknownOpCode offset byte =>
    "Opcode desconhecido 0x" ++ Hex.numeral 2 byte.toNat ++ " no offset 0x"
      ++ Hex.numeral 4 offset.toNat
  | .truncatedOperand offset byte opcode needed available =>
    "Argumento truncado de " ++ place offset byte opcode ++ ": " ++ toString needed
      ++ " bytes necessários, " ++ toString available ++ " disponíveis"
  | .oversizedOperand offset byte opcode declared available =>
    "Argumento de " ++ place offset byte opcode ++ " declara " ++ toString declared.toNat
      ++ " bytes, " ++ toString available ++ " disponíveis"
  | .instructionLimit limit => "Limite de " ++ toString limit.toNat ++ " instruções atingido"
  | .streamTooLarge size =>
    "Stream de " ++ toString size ++ " bytes excede o espaço de offsets endereçável"
  | .invalidHex reason => "Hexadecimal inválido: " ++ reason
  | .trap cause => cause.message

/-- The decoding error that a read error is for the instruction at
`offset`. -/
def ReadError.at (error : ReadError) (offset : UInt32) (opcode : OpCode) (byte : UInt8) :
    DecodeError :=
  match error with
  | .truncated needed available => .truncatedOperand offset byte opcode.name needed available
  | .oversized declared available => .oversizedOperand offset byte opcode.name declared available
  | .trap cause => .trap cause

end Disasm
