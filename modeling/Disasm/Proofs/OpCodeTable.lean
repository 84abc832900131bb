import Disasm.Dialect.Basic
import Mathlib.Tactic.SplitIfs
/-!
# What a table answers

Entering an opcode changes the answer for one byte, its own. A table is
coherent when the opcode it answers with is written as the byte it was asked
for. The free table is coherent and entering keeps it so; hence every table
that is built up from the free one is, and every dialect that looks its
opcodes up in such a table.
-/

namespace Disasm

namespace OpCodeTable

variable {table : OpCodeTable}

/-- The answer for a byte is what its slot holds. -/
theorem get?_eq_getElem (table : OpCodeTable) (byte : UInt8) (h : byte.toNat < 256) :
    table.get? byte = table.slots[byte.toNat] := rfl

@[simp] theorem get?_empty (byte : UInt8) : empty.get? byte = none := by
  rw [get?_eq_getElem _ _ byte.toNat_lt]
  exact Vector.getElem_replicate _

/-- **The last opcode entered for a byte is the one found**; the other bytes
keep theirs. -/
theorem get?_insert (table : OpCodeTable) (opcode : OpCode) (byte : UInt8) :
    (table.insert opcode).get? byte =
      if opcode.byte = byte then some opcode else table.get? byte := by
  simp only [get?_eq_getElem _ _ byte.toNat_lt, insert, Vector.getElem_set, UInt8.toNat_inj]

/-- Of many opcodes entered for a byte the last one is found. -/
theorem get?_extend (table : OpCodeTable) (opcodes : List OpCode) (byte : UInt8) :
    (table.extend opcodes).get? byte =
      (opcodes.reverse.find? fun opcode => opcode.byte == byte).or (table.get? byte) := by
  induction opcodes generalizing table with
  | nil => rfl
  | cons first opcodes ih =>
    have hrest : (table.extend (first :: opcodes)).get? byte =
        ((table.insert first).extend opcodes).get? byte := rfl
    rw [hrest, ih, get?_insert, List.reverse_cons, List.find?_append, Option.or_assoc]
    congr 1
    by_cases hbyte : first.byte = byte <;> simp [hbyte]

/-- A byte of which none is entered keeps its answer. -/
theorem get?_extend_of_forall_ne {opcodes : List OpCode} {byte : UInt8}
    (h : ∀ opcode ∈ opcodes, opcode.byte ≠ byte) :
    (table.extend opcodes).get? byte = table.get? byte := by
  have hnone : (opcodes.reverse.find? fun opcode => opcode.byte == byte) = none := by
    rw [List.find?_eq_none]
    intro opcode hmem
    simpa using h opcode (List.mem_reverse.1 hmem)
  rw [get?_extend, hnone, Option.none_or]

/-- A byte of which one is entered has an answer. -/
theorem exists_get?_extend_of_mem (table : OpCodeTable) {opcodes : List OpCode} {opcode : OpCode}
    (h : opcode ∈ opcodes) : ∃ found, (table.extend opcodes).get? opcode.byte = some found := by
  have hsome : (opcodes.reverse.find? fun other => other.byte == opcode.byte).isSome := by
    rw [List.find?_isSome]
    exact ⟨opcode, List.mem_reverse.2 h, by simp⟩
  obtain ⟨found, hfound⟩ := Option.isSome_iff_exists.1 hsome
  exact ⟨found, by rw [get?_extend, hfound, Option.some_or]⟩

/-- Every opcode stands in the slot of its own byte. -/
def Coherent (table : OpCodeTable) : Prop :=
  ∀ byte opcode, table.get? byte = some opcode → opcode.byte = byte

theorem coherent_empty : Coherent empty := by
  intro byte opcode h
  simp at h

/-- Entering an opcode keeps a table coherent. -/
theorem Coherent.insert (h : table.Coherent) (opcode : OpCode) :
    (table.insert opcode).Coherent := by
  intro byte found hfound
  rw [get?_insert] at hfound
  split_ifs at hfound with hbyte
  · obtain rfl : opcode = found := Option.some.inj hfound
    exact hbyte
  · exact h byte found hfound

/-- So does entering many. -/
theorem Coherent.extend (h : table.Coherent) (opcodes : List OpCode) :
    (table.extend opcodes).Coherent := by
  induction opcodes generalizing table with
  | nil => exact h
  | cons opcode opcodes ih => exact ih (h.insert opcode)

end OpCodeTable

namespace Dialect

/-- A byte stands for an opcode that is written as that byte. -/
def Coherent (dialect : Dialect) : Prop :=
  ∀ byte opcode, dialect.opcode? byte = some opcode → opcode.byte = byte

/-- **A dialect is coherent if its opcodes were entered into a table.** -/
theorem coherent_ofTable (name : String) (opcodes : List OpCode)
    (note? : Instruction → OffsetIndex → Option JumpNote) (categories : List Category) :
    (ofTable name (OpCodeTable.empty.extend opcodes) note? categories).Coherent :=
  OpCodeTable.coherent_empty.extend opcodes

end Dialect

end Disasm
