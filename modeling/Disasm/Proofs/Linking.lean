import Disasm.Proofs.Decoding
import Disasm.Proofs.OffsetIndex
/-!
# How instructions are linked

Linking enters each instruction into the index and then shows it to the
dialect, with the index as it is at that moment. A `Visit` is what the
dialect is shown. The visits depend on the instructions alone, and linking is
what the dialect makes of them, one by one (`instructions_link`). Instructions
that were cut off have their own numbers and offsets, so that the index takes
in every one of them; at the visit of an instruction it lists the offsets up
to this one (`lists_of_visits`), and at the end all of them
(`lists_index_finish`).
-/

namespace Disasm

open Instruction (bare)

/-- **What a dialect is shown of one instruction**, and whether the index took
the instruction in just before. -/
structure Visit where
  instruction : Instruction
  index : OffsetIndex
  entered : Bool

/-- The visit of an instruction that is entered into an index. -/
def OffsetIndex.visit (index : OffsetIndex) (instruction : Instruction) : Visit :=
  let (entered, index) := index.insert instruction.offset instruction.number
  { instruction, index, entered }

/-- The visits of instructions, from an index on. -/
def visits (index : OffsetIndex) : List Instruction → List Visit
  | [] => []
  | instruction :: rest =>
    index.visit instruction :: visits (index.visit instruction).index rest

/-- The instruction that a dialect makes of a visit. -/
def Visit.linked (dialect : Dialect) (settings : Settings) (visit : Visit) : Instruction :=
  applyNote settings visit.instruction (dialect.note? visit.instruction visit.index)

variable {dialect : Dialect} {settings : Settings}
variable {pos number : Nat} {bytes : List UInt8} {instructions : List Instruction}
variable {index : OffsetIndex} {offsets : List UInt32}

/-! ## Linking is what the dialect makes of the visits -/

/-- A note brings its jump; without one an instruction keeps its own. -/
theorem jump_applyNote (settings : Settings) (instruction : Instruction)
    (note : Option JumpNote) :
    (applyNote settings instruction note).jump = (note.map (·.jump)).or instruction.jump := by
  cases note <;> rfl

/-- One instruction is linked by its visit. -/
theorem linkOne_eq (linked : Linked) (instruction : Instruction) :
    linkOne dialect settings linked instruction =
      ⟨linked.instructions.push ((linked.index.visit instruction).linked dialect settings),
        (linked.index.visit instruction).index⟩ := rfl

/-- Many are linked by theirs. -/
theorem instructions_foldl_linkOne (instructions : List Instruction) (linked : Linked) :
    (instructions.foldl (linkOne dialect settings) linked).instructions.toList =
      linked.instructions.toList ++
        (visits linked.index instructions).map (Visit.linked dialect settings) := by
  induction instructions generalizing linked with
  | nil => simp [visits]
  | cons instruction instructions ih =>
    rw [List.foldl_cons, ih, linkOne_eq]
    simp [visits]

theorem instructions_link (dialect : Dialect) (settings : Settings)
    (instructions : List Instruction) :
    (link dialect settings instructions).instructions =
      (visits ∅ instructions).map (Visit.linked dialect settings) :=
  (instructions_foldl_linkOne instructions {}).trans (List.nil_append _)

/-- The index that linking ends with is that of the last visit. -/
theorem index_foldl_linkOne (dialect : Dialect) (settings : Settings)
    (instructions : List Instruction) (linked : Linked) :
    (instructions.foldl (linkOne dialect settings) linked).index =
      ((visits linked.index instructions).getLast?.map (·.index)).getD linked.index := by
  induction instructions generalizing linked with
  | nil => rfl
  | cons instruction instructions ih =>
    rw [List.foldl_cons, ih, linkOne_eq, visits, List.getLast?_cons]
    cases (visits (linked.index.visit instruction).index instructions).getLast? <;> rfl

/-- And the index of a disassembly is the same one. -/
theorem index_finish (dialect : Dialect) (settings : Settings) (instructions : List Instruction) :
    (finish dialect settings instructions).index =
      ((visits ∅ instructions).getLast?.map (·.index)).getD ∅ := by
  rw [← index_foldl_linkOne dialect settings instructions {}]
  unfold finish
  split <;> rfl

/-- There is one visit for each instruction. -/
theorem map_instruction_visits (index : OffsetIndex) (instructions : List Instruction) :
    (visits index instructions).map (·.instruction) = instructions := by
  induction instructions generalizing index with
  | nil => rfl
  | cons instruction instructions ih => rw [visits, List.map_cons, ih]; rfl

theorem length_visits (index : OffsetIndex) (instructions : List Instruction) :
    (visits index instructions).length = instructions.length := by
  rw [← List.length_map, map_instruction_visits]

theorem size_foldl_linkOne (dialect : Dialect) (settings : Settings)
    (instructions : List Instruction) :
    (instructions.foldl (linkOne dialect settings) {}).instructions.size =
      instructions.length := by
  rw [← Array.length_toList, instructions_foldl_linkOne, List.length_append, List.length_map,
    length_visits]
  exact Nat.zero_add _

/-! ## Numbers and offsets are in use once -/

/-- Instructions that are cut off are numbered in order. -/
theorem Cuts.map_number (h : Cuts dialect settings pos number bytes instructions) :
    instructions.map (·.number) = List.range' number instructions.length := by
  induction h with
  | nil => rfl
  | cons _ _ _ _ ih => rw [List.map_cons, ih, List.length_cons, List.range'_succ]

/-- An instruction that was cut off is numbered by its place, and has neither
comment nor jump. -/
theorem Cuts.place_of_getElem? (h : Cuts dialect settings 0 0 bytes instructions) {k : Nat}
    {instruction : Instruction} (hk : instructions[k]? = some instruction) :
    instruction.number = k ∧ instruction.comment = none ∧ instruction.jump = none := by
  have hbare : instruction.bare = instruction := by
    have hget : (instructions.map bare)[k]? = some instruction.bare := by
      rw [List.getElem?_map, hk]
      rfl
    rw [h.map_bare, hk] at hget
    exact (Option.some.inj hget).symm
  have hnumber : (instructions.map (·.number))[k]? = some instruction.number := by
    rw [List.getElem?_map, hk]
    rfl
  rw [h.map_number] at hnumber
  obtain ⟨_, hplace⟩ := List.getElem?_eq_some_iff.1 hnumber
  rw [List.getElem_range'] at hplace
  refine ⟨by omega, ?_, ?_⟩
  · rw [← hbare]
    rfl
  · rw [← hbare]
    rfl

/-- None of them starts before the position they are cut from. -/
theorem Cuts.le_offset (h : Cuts dialect settings pos number bytes instructions)
    (hsize : pos + bytes.length ≤ UInt32.size) :
    ∀ instruction ∈ instructions, pos ≤ instruction.offset.toNat := by
  induction h with
  | nil => simp
  | @cons pos number byte opcode operand bytes instructions _ _ _ _ ih =>
    simp only [List.length_cons, List.length_append] at hsize
    have hpos : (UInt32.ofNat pos).toNat = pos := UInt32.toNat_ofNat_of_lt' (by omega)
    intro instruction hmem
    rcases List.mem_cons.1 hmem with rfl | hmem
    · exact hpos.ge
    · have hle := ih (by omega) instruction hmem
      omega

/-- **No two of them start at the same offset.** -/
theorem Cuts.nodup_offsets (h : Cuts dialect settings pos number bytes instructions)
    (hsize : pos + bytes.length ≤ UInt32.size) :
    (instructions.map (·.offset)).Nodup := by
  induction h with
  | nil => exact List.nodup_nil
  | @cons pos number byte opcode operand bytes instructions _ _ _ hrest ih =>
    simp only [List.length_cons, List.length_append] at hsize
    have hpos : (UInt32.ofNat pos).toNat = pos := UInt32.toNat_ofNat_of_lt' (by omega)
    rw [List.map_cons, List.nodup_cons]
    refine ⟨?_, ih (by omega)⟩
    -- the others start after the byte of the opcode
    intro hmem
    obtain ⟨instruction, hmem, hoffset⟩ := List.mem_map.1 hmem
    have hle := hrest.le_offset (by omega) instruction hmem
    rw [hoffset, hpos] at hle
    omega

/-! ## What the index lists -/

/-- A visit enters an instruction that is numbered by its place and starts
where no other does. -/
theorem lists_visit (h : index.Lists offsets) {instruction : Instruction}
    (hnumber : instruction.number = offsets.length) (hnew : instruction.offset ∉ offsets) :
    (index.visit instruction).entered = true ∧
      (index.visit instruction).index.Lists (offsets ++ [instruction.offset]) := by
  have hinsert := h.insert hnew
  rw [← hnumber] at hinsert
  exact hinsert

/-- **At the visit of an instruction the index lists the offsets up to this
one**, and the instruction was entered. -/
theorem lists_of_visits (h : index.Lists offsets)
    (hnumber : instructions.map (·.number) = List.range' offsets.length instructions.length)
    (hnodup : (offsets ++ instructions.map (·.offset)).Nodup) {k : Nat} {visit : Visit}
    (hvisit : (visits index instructions)[k]? = some visit) :
    visit.entered = true ∧
      visit.index.Lists (offsets ++ (instructions.take (k + 1)).map (·.offset)) := by
  -- the index and what it lists grow with each visit, so both are general
  induction instructions generalizing index offsets k with
  | nil => simp [visits] at hvisit
  | cons instruction instructions ih =>
    rw [List.map_cons, List.length_cons, List.range'_succ, List.cons.injEq] at hnumber
    have hnew : instruction.offset ∉ offsets := by
      intro hmem
      exact (List.nodup_append.1 hnodup).2.2 _ hmem _ List.mem_cons_self rfl
    obtain ⟨hentered, hlists⟩ := lists_visit h hnumber.1 hnew
    cases k with
    | zero =>
      obtain rfl : index.visit instruction = visit := Option.some.inj hvisit
      exact ⟨hentered, hlists⟩
    | succ k =>
      have hrest := ih hlists (by simpa using hnumber.2) (by simpa using hnodup) hvisit
      simpa using hrest

/-- The visit of an instruction that was cut off. -/
theorem Cuts.visit_of_getElem? (h : Cuts dialect settings 0 0 bytes instructions)
    (hsize : bytes.length ≤ UInt32.size) {k : Nat} {visit : Visit}
    (hvisit : (visits ∅ instructions)[k]? = some visit) :
    instructions[k]? = some visit.instruction ∧ visit.entered = true ∧
      visit.index.Lists ((instructions.take (k + 1)).map (·.offset)) := by
  refine ⟨?_, lists_of_visits OffsetIndex.lists_empty h.map_number (h.nodup_offsets (by omega))
    hvisit⟩
  rw [← map_instruction_visits ∅ instructions, List.getElem?_map, hvisit]
  rfl

/-- **In the end the index lists the offsets of all instructions.** -/
theorem Cuts.lists_index_finish (h : Cuts dialect settings 0 0 bytes instructions)
    (hsize : bytes.length ≤ UInt32.size) :
    (finish dialect settings instructions).index.Lists (instructions.map (·.offset)) := by
  rw [index_finish]
  cases hlast : (visits ∅ instructions).getLast? with
  | none =>
    have hnil : instructions = [] := by
      rw [← map_instruction_visits ∅ instructions, List.getLast?_eq_none_iff.1 hlast]
      rfl
    rw [hnil]
    exact OffsetIndex.lists_empty
  | some visit =>
    -- the last visit is that of the last instruction
    obtain ⟨front, hfront⟩ := List.getLast?_eq_some_iff.1 hlast
    have hvisit : (visits ∅ instructions)[front.length]? = some visit := by
      rw [hfront, List.getElem?_concat_length]
    have hlen : instructions.length = front.length + 1 := by
      rw [← length_visits ∅, hfront, List.length_append, List.length_singleton]
    obtain ⟨-, -, hlists⟩ := h.visit_of_getElem? hsize hvisit
    rwa [← hlen, List.take_length] at hlists

/-- **The index of a disassembly lists the offsets of its instructions.** -/
theorem lists_of_decode {code : Code} {d : Disassembly}
    (h : decode dialect settings code = .ok d) :
    d.index.Lists (d.instructions.map (·.offset)) := by
  obtain ⟨hcode, instructions, hcuts, rfl⟩ := decode_eq_ok_iff.1 h
  rw [map_finish dialect settings (fun _ => rfl)]
  exact hcuts.lists_index_finish hcode.le

namespace Disassembly

/-- The offset at which the instruction of a place starts. -/
def startOf? (d : Disassembly) (place : Nat) : Option UInt32 :=
  (d.get? place).map (·.offset)

theorem startOf?_eq (d : Disassembly) (place : Nat) :
    d.startOf? place = (d.instructions.map (·.offset))[place]? :=
  List.getElem?_map.symm

/-- With such an index the instruction that starts at an offset is found. -/
theorem at?_eq_some_iff {d : Disassembly} (h : d.index.Lists (d.instructions.map (·.offset)))
    {offset : UInt32} {instruction : Instruction} :
    d.at? offset = some instruction ↔
      instruction ∈ d.instructions ∧ instruction.offset = offset := by
  constructor
  · intro hat
    obtain ⟨place, hplace, hget⟩ := Option.bind_eq_some_iff.1 hat
    rw [h.indexOf?_eq_some_iff, ← startOf?_eq, startOf?, hget] at hplace
    exact ⟨List.mem_of_getElem? hget, Option.some.inj hplace⟩
  · rintro ⟨hmem, rfl⟩
    obtain ⟨place, hget⟩ := List.getElem?_of_mem hmem
    have hplace : d.index.indexOf? instruction.offset = some place := by
      rw [h.indexOf?_eq_some_iff, List.getElem?_map, hget]
      rfl
    rw [at?, hplace]
    exact hget

end Disassembly

end Disasm
