import Disasm.Proofs.Decoding
/-!
# Instructions tile the code

What an instruction says about its place, its number, its offset and its end,
is worked out from the instruction and not from the loop that cut it off.
`Cuts.place` ties the two together: the bytes before the instruction are
those that the instructions before it were cut from, and its own bytes are
the one that was looked up and its operand. From there `tiles_of_decode`
lays the instructions side by side over the whole code.
-/

namespace Disasm

open Operand (written)
open Instruction (bare)

/-- **The instructions tile the code**: without gap or overlap, from its start
to its end. -/
structure Tiles (dialect : Dialect) (code : Code) (instructions : List Instruction) : Prop where
  /-- An instruction is numbered by its place. -/
  number_eq : ∀ (i : Nat) (instruction : Instruction), instructions[i]? = some instruction →
    instruction.number = i
  /-- The first one starts with the code. -/
  first_offset : ∀ instruction : Instruction, instructions[0]? = some instruction →
    instruction.offset = 0
  /-- Each one ends where the next one starts. -/
  end_eq_next : ∀ (i : Nat) (left right : Instruction), instructions[i]? = some left →
    instructions[i + 1]? = some right → left.endOffset = right.offset.toNat
  /-- The last one ends with the code. -/
  last_end : ∀ instruction : Instruction, instructions.getLast? = some instruction →
    instruction.endOffset = code.size
  /-- There are no instructions only where there is no code. -/
  eq_nil_iff : instructions = [] ↔ code = #[]
  /-- Offsets grow from one instruction to the next. -/
  offset_lt : instructions.Pairwise fun left right => left.offset < right.offset
  /-- There are no more instructions than bytes. -/
  length_le : instructions.length ≤ code.size
  /-- An offset is the whole position, that is the number of bytes that the
  instructions before it take. -/
  offset_eq : ∀ (i : Nat) (instruction : Instruction), instructions[i]? = some instruction →
    instruction.offset.toNat = ((instructions.take i).flatMap Instruction.encode).length
  /-- The bytes from the offset to the end are the byte that was looked up,
  the length field and the payload. -/
  bytes_eq : ∀ instruction ∈ instructions, ∃ byte,
    dialect.opcode? byte = some instruction.opcode ∧
      (code.extract instruction.offset.toNat instruction.endOffset).toList =
        byte :: written instruction.operand

variable {dialect : Dialect} {settings : Settings} {code : Code} {d : Disassembly}
variable {pos number : Nat} {bytes : List UInt8} {instructions : List Instruction}

/-- An instruction takes the byte of its opcode and those of its operand. -/
theorem Instruction.size_eq (instruction : Instruction) :
    instruction.size = 1 + (written instruction.operand).length := by
  cases h : instruction.operand <;> simp [size, h, Operand.size]

/-- The instructions take as many bytes as they were cut from. -/
theorem Cuts.length_flatMap_encode (h : Cuts dialect settings pos number bytes instructions) :
    (instructions.flatMap Instruction.encode).length = bytes.length := by
  induction h with
  | nil => rfl
  | cons _ _ _ _ ih =>
    simp only [List.flatMap_cons, List.length_append, ih, Instruction.length_encode,
      Instruction.size_eq, List.length_cons]
    omega

/-- **The place of an instruction among the bytes.** The bytes before it are
those that the instructions before it were cut from. -/
theorem Cuts.place (h : Cuts dialect settings pos number bytes instructions) {i : Nat}
    {instruction : Instruction} (hi : instructions[i]? = some instruction) :
    ∃ front byte back, bytes = front ++ (byte :: written instruction.operand ++ back) ∧
      Cuts dialect settings pos number front (instructions.take i) ∧
      instruction.number = number + i ∧
      instruction.offset = UInt32.ofNat (pos + front.length) ∧
      dialect.opcode? byte = some instruction.opcode := by
  induction h generalizing i with
  | nil => simp at hi
  | @cons pos number byte opcode operand bytes instructions hlimit hop hfits _ ih =>
    cases i with
    | zero =>
      obtain rfl := Option.some.inj hi
      exact ⟨[], byte, bytes, by simp, .nil pos number, rfl, rfl, hop⟩
    | succ i =>
      obtain ⟨front, byte', back, rfl, hfront, hnumber, hoffset, hop'⟩ :=
        ih (by simpa using hi)
      refine ⟨byte :: (written operand ++ front), byte', back, by simp,
        .cons hlimit hop hfits hfront, by omega, ?_, hop'⟩
      rw [hoffset]
      congr 1
      simp only [List.length_cons, List.length_append]
      omega

/-- The place of an instruction in the code. -/
theorem place_of_decode (h : decode dialect settings code = .ok d) {i : Nat}
    {instruction : Instruction} (hi : d.instructions[i]? = some instruction) :
    ∃ front byte back, code.toList = front ++ (byte :: written instruction.operand ++ back) ∧
      front.length = ((d.instructions.take i).flatMap Instruction.encode).length ∧
      instruction.number = i ∧ instruction.offset.toNat = front.length ∧
      dialect.opcode? byte = some instruction.opcode := by
  have hcode : code.size < UInt32.size := (decode_eq_ok_iff.1 h).1
  -- cutting knows the instruction without its jump and comment; neither says where it is
  have hi' : (d.instructions.map bare)[i]? = some instruction.bare := by
    rw [List.getElem?_map, hi]
    rfl
  obtain ⟨front, byte, back, hbytes, hfront, hnumber, hoffset, hop⟩ :=
    (cuts_of_decode h).place hi'
  have hlen : front.length < UInt32.size := by
    have := Code.size_of_append hbytes
    omega
  refine ⟨front, byte, back, hbytes, ?_, by simpa using hnumber, ?_, hop⟩
  · rw [← hfront.length_flatMap_encode, ← List.map_take, flatMap_encode_bare]
  · rw [← Instruction.offset_bare, hoffset, Nat.zero_add]
    exact UInt32.toNat_ofNat_of_lt' hlen

/-- One more instruction takes that many more bytes. -/
theorem length_flatMap_take_succ {i : Nat} {instruction : Instruction}
    (hi : instructions[i]? = some instruction) :
    ((instructions.take (i + 1)).flatMap Instruction.encode).length =
      ((instructions.take i).flatMap Instruction.encode).length + instruction.size := by
  rw [List.take_add_one, hi, List.flatMap_append, List.length_append]
  simp

/-- More instructions take no fewer bytes. -/
theorem length_flatMap_take_mono (instructions : List Instruction) {i j : Nat} (hij : i ≤ j) :
    ((instructions.take i).flatMap Instruction.encode).length ≤
      ((instructions.take j).flatMap Instruction.encode).length := by
  obtain ⟨tail, htail⟩ := List.take_prefix_take_left (l := instructions) hij
  rw [← htail, List.flatMap_append, List.length_append]
  exact Nat.le_add_right _ _

/-- The instructions of a disassembly take all of the code. -/
theorem length_encode_of_decode (h : decode dialect settings code = .ok d) :
    (d.instructions.flatMap Instruction.encode).length = code.size := by
  rw [← Array.length_toList, ← (cuts_of_decode h).length_flatMap_encode, flatMap_encode_bare]

/-- An offset counts the bytes of the instructions before. -/
theorem offset_of_decode (h : decode dialect settings code = .ok d) {i : Nat}
    {instruction : Instruction} (hi : d.instructions[i]? = some instruction) :
    instruction.offset.toNat = ((d.instructions.take i).flatMap Instruction.encode).length := by
  obtain ⟨front, -, -, -, hfront, -, hoffset, -⟩ := place_of_decode h hi
  rw [hoffset, hfront]

/-- And an end those of the instruction too. -/
theorem endOffset_of_decode (h : decode dialect settings code = .ok d) {i : Nat}
    {instruction : Instruction} (hi : d.instructions[i]? = some instruction) :
    instruction.endOffset =
      ((d.instructions.take (i + 1)).flatMap Instruction.encode).length := by
  rw [length_flatMap_take_succ hi, ← offset_of_decode h hi, Instruction.endOffset]

/-- Between the two stand the byte that was looked up and the operand. -/
theorem extract_of_decode (h : decode dialect settings code = .ok d) {instruction : Instruction}
    (hmem : instruction ∈ d.instructions) :
    ∃ byte, dialect.opcode? byte = some instruction.opcode ∧
      (code.extract instruction.offset.toNat instruction.endOffset).toList =
        byte :: written instruction.operand := by
  obtain ⟨i, hi⟩ := List.getElem?_of_mem hmem
  obtain ⟨front, byte, back, hbytes, -, -, hoffset, hop⟩ := place_of_decode h hi
  refine ⟨byte, hop, ?_⟩
  rw [Array.toList_extract, hbytes, Instruction.endOffset, hoffset, Instruction.size_eq,
    List.extract_eq_take_drop, List.drop_left, Nat.add_sub_cancel_left]
  exact List.take_left' (by rw [List.length_cons, Nat.add_comm])

/-- **The instructions that decoding finds tile the code**, whatever the
dialect and the settings. -/
theorem tiles_of_decode (h : decode dialect settings code = .ok d) :
    Tiles dialect code d.instructions where
  number_eq i instruction hi := by
    obtain ⟨-, -, -, -, -, hnumber, -⟩ := place_of_decode h hi
    exact hnumber
  first_offset instruction hi := UInt32.toNat_inj.1 (offset_of_decode h hi)
  end_eq_next i left right hleft hright := by
    rw [endOffset_of_decode h hleft, offset_of_decode h hright]
  last_end instruction hlast := by
    obtain ⟨front, hfront⟩ := List.getLast?_eq_some_iff.1 hlast
    have hi : d.instructions[front.length]? = some instruction := by
      rw [hfront, List.getElem?_concat_length]
    have hlen : d.instructions.length = front.length + 1 := by
      rw [hfront, List.length_append, List.length_singleton]
    rw [endOffset_of_decode h hi, ← hlen, List.take_length, length_encode_of_decode h]
  eq_nil_iff := by
    have htotal := length_encode_of_decode h
    constructor
    · intro hnil
      rw [hnil] at htotal
      exact Array.eq_empty_of_size_eq_zero htotal.symm
    · rintro rfl
      exact List.map_eq_nil_iff.1
        (List.length_eq_zero_iff.1 (Nat.le_zero.1 (cuts_of_decode h).length_le))
  offset_lt := by
    -- an instruction has a byte, so it starts before its end, where the next may start
    rw [List.pairwise_iff_getElem]
    intro i j hi hj hij
    have hend := endOffset_of_decode h (List.getElem?_eq_getElem hi)
    have hoffset := offset_of_decode h (List.getElem?_eq_getElem hj)
    have hmono := length_flatMap_take_mono d.instructions (show i + 1 ≤ j from hij)
    rw [Instruction.endOffset, Instruction.size_eq] at hend
    rw [UInt32.lt_iff_toNat_lt]
    omega
  length_le := by simpa using (cuts_of_decode h).length_le
  offset_eq _ _ hi := offset_of_decode h hi
  bytes_eq _ hmem := extract_of_decode h hmem

/-- A dialect in which every byte stands for one and the same opcode. -/
def sampleDialect : Dialect where
  name := "sample"
  opcode? _ := some ⟨0, "ANY", "", .varCounted⟩

theorem tiles_of_decode_sample :
    ∃ d, decode sampleDialect {} #[9, 0xfd, 1, 0, 7, 5, 0] = .ok d ∧
      Tiles sampleDialect #[9, 0xfd, 1, 0, 7, 5, 0] d.instructions := by
  have hlast : Cuts sampleDialect {} 5 1 [5, 0] _ :=
    @Cuts.cons _ _ 5 1 5 _ (some ⟨.varCounted, [0], []⟩) [] [] rfl rfl (by decide) (.nil 7 2)
  have hcuts : Cuts sampleDialect {} 0 0 [9, 0xfd, 1, 0, 7, 5, 0] _ :=
    @Cuts.cons _ _ 0 0 9 _ (some ⟨.varCounted, [0xfd, 1, 0], [7]⟩) [5, 0] _ rfl rfl (by decide)
      hlast
  have hd := decode_of_cuts
    (show (#[9, 0xfd, 1, 0, 7, 5, 0] : Code).size < UInt32.size by decide) hcuts
  exact ⟨_, hd, tiles_of_decode hd⟩

end Disasm
