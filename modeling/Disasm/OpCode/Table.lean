import Disasm.OpCode.Basic
/-!
# Opcode tables

A table has a slot for each of the 256 bytes. Entering an opcode puts it in
the slot of its byte, over whatever stood there.
-/

namespace Disasm

/-- The opcodes of a machine, by byte. -/
structure OpCodeTable where
  slots : Vector (Option OpCode) 256

namespace OpCodeTable

/-- The table with every slot free. -/
def empty : OpCodeTable :=
  ⟨Vector.replicate 256 none⟩

instance : EmptyCollection OpCodeTable := ⟨empty⟩

/-- The table with `opcode` in the slot of its byte. -/
def insert (table : OpCodeTable) (opcode : OpCode) : OpCodeTable :=
  ⟨table.slots.set opcode.byte.toNat (some opcode) opcode.byte.toNat_lt⟩

/-- The table with the opcodes of a list entered in order. -/
def extend (table : OpCodeTable) (opcodes : List OpCode) : OpCodeTable :=
  opcodes.foldl insert table

/-- The opcode that a byte stands for. -/
def get? (table : OpCodeTable) (byte : UInt8) : Option OpCode :=
  table.slots.get ⟨byte.toNat, byte.toNat_lt⟩

/-- The opcodes of the table, in the order of their bytes. -/
def toList (table : OpCodeTable) : List OpCode :=
  table.slots.toList.filterMap id

/-- How many opcodes the table holds. -/
def size (table : OpCodeTable) : Nat :=
  table.toList.length

/-- Whether the table holds no opcode. -/
def isEmpty (table : OpCodeTable) : Bool :=
  table.toList.isEmpty

/-- The opcode of the given name, that with the least byte if there are
several. -/
def find? (table : OpCodeTable) (name : String) : Option OpCode :=
  table.toList.find? fun opcode => opcode.name == name

end OpCodeTable

end Disasm
