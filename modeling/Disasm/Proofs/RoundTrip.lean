import Disasm.Proofs.Decoding
import Disasm.Proofs.OpCodeTable
/-!
# Code and what it is cut into determine each other

An operation is an opcode with the operand written after it. Operations that
can be written, put one after the other, are cut apart again where they were
put together (`exists_cuts_flatMap`): no operation is the beginning of
another, whatever its shape. Conversely instructions that were cut off are
written back as they stood (`Cuts.flatMap_encode`), length fields included,
since a coherent dialect writes an opcode as the byte it was found for.
-/

namespace Disasm

open Operand (written)
open Instruction (bare)

/-- An opcode with the operand written after it. -/
structure Operation where
  opcode : OpCode
  operand : Option Operand
deriving DecidableEq, Repr

namespace Operation

/-- The operation as it is written in code. -/
def encode (operation : Operation) : List UInt8 :=
  operation.opcode.byte :: written operation.operand

/-- The opcode is the one that the table has for its byte, and the operand is
what it asks for. -/
def WellFormed (table : OpCodeTable) (operation : Operation) : Prop :=
  table.get? operation.opcode.byte = some operation.opcode ∧
    operation.opcode.shape.Fits operation.operand

instance (table : OpCodeTable) (operation : Operation) :
    Decidable (operation.WellFormed table) :=
  inferInstanceAs (Decidable (_ ∧ _))

end Operation

/-- The operation that an instruction carries out. -/
def Instruction.operation (instruction : Instruction) : Operation :=
  ⟨instruction.opcode, instruction.operand⟩

variable {dialect : Dialect} {settings : Settings}
variable {pos number : Nat} {bytes : List UInt8} {instructions : List Instruction}

/-! ## From operations to code and back -/

/-- **Operations that were put together are cut apart again.** -/
theorem exists_cuts_flatMap {table : OpCodeTable} {operations : List Operation}
    (hdialect : dialect.opcode? = table.get?) (hlimit : settings.maxInstructions = none)
    (h : ∀ operation ∈ operations, operation.WellFormed table) (pos number : Nat) :
    ∃ instructions,
      Cuts dialect settings pos number (operations.flatMap Operation.encode) instructions ∧
        instructions.map Instruction.operation = operations := by
  induction operations generalizing pos number with
  | nil => exact ⟨[], .nil pos number, rfl⟩
  | cons operation operations ih =>
    obtain ⟨hop, hfits⟩ := h operation List.mem_cons_self
    obtain ⟨instructions, hcuts, hmap⟩ :=
      ih (fun other hother => h other (List.mem_cons_of_mem _ hother))
        (pos + 1 + (written operation.operand).length) (number + 1)
    rw [← hdialect] at hop
    refine ⟨_, .cons (atLimit?_of_none hlimit number) hop hfits hcuts, ?_⟩
    rw [List.map_cons, hmap]
    rfl

/-! ## From code to instructions and back -/

/-- **Instructions that were cut off are written back as they stood.** -/
theorem Cuts.flatMap_encode (hdialect : dialect.Coherent)
    (h : Cuts dialect settings pos number bytes instructions) :
    instructions.flatMap Instruction.encode = bytes := by
  induction h with
  | nil => rfl
  | @cons pos number byte opcode operand bytes instructions _ hop _ _ ih =>
    obtain rfl := hdialect byte opcode hop
    rw [List.flatMap_cons, ih]
    rfl

/-- Their operations can be written. -/
theorem Cuts.wellFormed {table : OpCodeTable} (hdialect : dialect.opcode? = table.get?)
    (htable : table.Coherent) (h : Cuts dialect settings pos number bytes instructions) :
    ∀ operation ∈ instructions.map Instruction.operation, operation.WellFormed table := by
  induction h with
  | nil => simp
  | @cons pos number byte opcode operand bytes instructions _ hop hfits _ ih =>
    rw [hdialect] at hop
    intro operation hmem
    rcases List.mem_cons.1 hmem with rfl | hmem
    · refine ⟨?_, hfits⟩
      rw [show Instruction.operation _ = ⟨opcode, operand⟩ from rfl, htable byte opcode hop]
      exact hop
    · exact ih operation hmem

/-- What the operations of instructions are written as is what the
instructions are. -/
theorem flatMap_encode_operation (instructions : List Instruction) :
    (instructions.map Instruction.operation).flatMap Operation.encode =
      instructions.flatMap Instruction.encode :=
  List.flatMap_map ..

/-- Jumps and comments are no part of an operation. -/
theorem map_operation_bare (instructions : List Instruction) :
    (instructions.map bare).map Instruction.operation =
      instructions.map Instruction.operation :=
  List.map_map ..

/-- The size of a disassembly counts the bytes it is written as. -/
theorem Disassembly.encodedSize_eq (d : Disassembly) : d.encodedSize = d.encode.length := by
  -- the sum is a running total, so the induction is for every start of it
  have key : ∀ (instructions : List Instruction) (total : Nat),
      instructions.foldl (fun total instruction => total + instruction.size) total =
        total + (instructions.flatMap Instruction.encode).length := by
    intro instructions
    induction instructions with
    | nil => intro total; rfl
    | cons instruction instructions ih =>
      intro total
      rw [List.foldl_cons, ih, List.flatMap_cons, List.length_append,
        Instruction.length_encode, Nat.add_assoc]
  rw [encodedSize, key, Nat.zero_add, encode]

/-! ## The two laws, for decoding -/

variable (name : String) (opcodes : List OpCode)
variable (note? : Instruction → OffsetIndex → Option JumpNote) (categories : List Category)

/-- **Code is uniquely decodable.** Whatever opcodes were entered into the
table, a sequence of operations that can be written is what decoding finds in
the code they are written as; and decoding succeeds on no other code. -/
theorem uniquely_decodable (settings : Settings) (hlimit : settings.maxInstructions = none) :
    (∀ operations : List Operation,
      (∀ operation ∈ operations, operation.WellFormed (OpCodeTable.empty.extend opcodes)) →
      (operations.flatMap Operation.encode).length < UInt32.size →
      ∃ d, decode (Dialect.ofTable name (OpCodeTable.empty.extend opcodes) note? categories)
          settings (operations.flatMap Operation.encode).toArray = .ok d ∧
        d.instructions.map Instruction.operation = operations) ∧
    ∀ code : Code, code.size < UInt32.size →
      ((∃ d, decode (Dialect.ofTable name (OpCodeTable.empty.extend opcodes) note? categories)
          settings code = .ok d) ↔
        ∃ operations : List Operation,
          (∀ operation ∈ operations, operation.WellFormed (OpCodeTable.empty.extend opcodes)) ∧
          code.toList = operations.flatMap Operation.encode) := by
  have hdialect : (Dialect.ofTable name (OpCodeTable.empty.extend opcodes) note?
      categories).opcode? = (OpCodeTable.empty.extend opcodes).get? := rfl
  constructor
  · intro operations hformed hlen
    obtain ⟨instructions, hcuts, hmap⟩ := exists_cuts_flatMap hdialect hlimit hformed 0 0
    refine ⟨_, decode_of_cuts hlen hcuts, ?_⟩
    rw [← map_operation_bare, map_bare_finish, map_operation_bare, hmap]
  · intro code hcode
    constructor
    · rintro ⟨d, hd⟩
      have hcuts := cuts_of_decode hd
      refine ⟨_, hcuts.wellFormed hdialect (OpCodeTable.coherent_empty.extend opcodes), ?_⟩
      rw [flatMap_encode_operation,
        hcuts.flatMap_encode (Dialect.coherent_ofTable name opcodes note? categories)]
    · rintro ⟨operations, hformed, hbytes⟩
      obtain ⟨instructions, hcuts, -⟩ := exists_cuts_flatMap hdialect hlimit hformed 0 0
      rw [← hbytes] at hcuts
      exact ⟨_, decode_of_cuts hcode hcuts⟩

/-- Opcodes to try the laws on: one with a variable count, one whose operand
has no bytes, and one with a count of two bytes. -/
def sampleOpCodes : List OpCode :=
  [⟨1, "VAR", "", .varCounted⟩, ⟨2, "GAP", "", .fixed 0⟩, ⟨3, "TWO", "", .counted .two⟩]

/-- Operations of these opcodes; the variable count is wider than it need
be. -/
def sampleOperations : List Operation :=
  [⟨⟨1, "VAR", "", .varCounted⟩, some ⟨.varCounted, [0xfd, 1, 0], [7]⟩⟩,
    ⟨⟨2, "GAP", "", .fixed 0⟩, some ⟨.fixed 0, [], []⟩⟩,
    ⟨⟨3, "TWO", "", .counted .two⟩, some ⟨.counted .two, [0, 0], []⟩⟩]

theorem sampleOperations_wellFormed : ∀ operation ∈ sampleOperations,
    operation.WellFormed (OpCodeTable.empty.extend sampleOpCodes) := by
  decide +kernel

theorem uniquely_decodable_sample :
    ∃ d, decode (Dialect.ofTable "sample" (OpCodeTable.empty.extend sampleOpCodes)
        (fun _ _ => none) []) {} #[1, 0xfd, 1, 0, 7, 2, 3, 0, 0] = .ok d ∧
      d.instructions.map Instruction.operation = sampleOperations :=
  (uniquely_decodable "sample" sampleOpCodes (fun _ _ => none) [] {} rfl).1 sampleOperations
    sampleOperations_wellFormed (by decide)

/-- **Writing a disassembly gives the code again**, byte for byte, and as many
bytes as the code has. -/
theorem encode_of_decode {settings : Settings} {code : Code} {d : Disassembly}
    (h : decode (Dialect.ofTable name (OpCodeTable.empty.extend opcodes) note? categories)
      settings code = .ok d) : d.encode = code.toList ∧ d.encodedSize = code.size := by
  have hcuts := cuts_of_decode h
  have hencode : d.encode = code.toList := by
    rw [Disassembly.encode, ← flatMap_encode_bare,
      hcuts.flatMap_encode (Dialect.coherent_ofTable name opcodes note? categories)]
  refine ⟨hencode, ?_⟩
  rw [d.encodedSize_eq, hencode, Array.length_toList]

theorem encode_of_decode_sample :
    ∃ d, decode (Dialect.ofTable "sample" (OpCodeTable.empty.extend sampleOpCodes)
        (fun _ _ => none) []) {} #[1, 0xfd, 1, 0, 7, 2, 3, 0, 0] = .ok d ∧
      d.encode = [1, 0xfd, 1, 0, 7, 2, 3, 0, 0] ∧ d.encodedSize = 9 := by
  have hdialect : (Dialect.ofTable "sample" (OpCodeTable.empty.extend sampleOpCodes)
      (fun _ _ => none) []).opcode? = (OpCodeTable.empty.extend sampleOpCodes).get? := rfl
  obtain ⟨instructions, hcuts, -⟩ :=
    exists_cuts_flatMap hdialect (show ({} : Settings).maxInstructions = none from rfl)
      sampleOperations_wellFormed 0 0
  have hd := decode_of_cuts
    (show (sampleOperations.flatMap Operation.encode).toArray.size < UInt32.size by decide) hcuts
  exact ⟨_, hd, encode_of_decode "sample" sampleOpCodes (fun _ _ => none) [] hd⟩

end Disasm
