import Disasm.Proofs.ErrorLocation
import Disasm.Proofs.RoundTrip
/-!
# Code that is put together

Code that can be decoded ends between two instructions. What is put after it
is decoded as it would be on its own, only further on: decoding does not look
back, and it does not look beyond the end of an operand. `Placed` is what the
bytes alone fix of an instruction, with the offset as a number, so that
moving by a distance is addition. `Cuts.exists_behind` and `Stuck.behind`
move a run of the cutting loop, to its end or to where it is stuck.
-/

namespace Disasm

open Operand (written)

/-- Where an instruction stands and what it does. -/
structure Placed where
  number : Nat
  offset : Nat
  operation : Operation
deriving DecidableEq, Repr

/-- What the bytes of the code fix of an instruction. -/
def Instruction.placed (instruction : Instruction) : Placed :=
  ⟨instruction.number, instruction.offset.toNat, instruction.operation⟩

/-- The same operation after `places` instructions more, which take `distance`
bytes. -/
def Placed.behind (placed : Placed) (places distance : Nat) : Placed :=
  { placed with number := placed.number + places, offset := placed.offset + distance }

/-- The error with another offset, if it names one, and all else the same. -/
def DecodeError.withOffset (e : DecodeError) (offset : UInt32) : DecodeError :=
  match e with
  | .unknownOpCode _ byte => .unknownOpCode offset byte
  | .truncatedOperand _ byte opcode needed available =>
    .truncatedOperand offset byte opcode needed available
  | .oversizedOperand _ byte opcode declared available =>
    .oversizedOperand offset byte opcode declared available
  | e => e

variable {dialect : Dialect} {settings : Settings}
variable {pos number : Nat} {bytes : List UInt8} {instructions : List Instruction}

/-- Linking places no instruction anew. -/
theorem map_placed_finish (dialect : Dialect) (settings : Settings)
    (instructions : List Instruction) :
    (finish dialect settings instructions).instructions.map Instruction.placed =
      instructions.map Instruction.placed :=
  map_finish dialect settings (fun _ => rfl) instructions

/-- An offset that does not run out of range is moved as a number. -/
theorem toNat_ofNat_add {pos distance : Nat} (h : pos + distance < UInt32.size) :
    (UInt32.ofNat (pos + distance)).toNat = (UInt32.ofNat pos).toNat + distance := by
  rw [UInt32.toNat_ofNat_of_lt' h, UInt32.toNat_ofNat_of_lt' (by omega)]

/-! ## Moving a run -/

/-- **Bytes that are cut are cut in the same way further on**, if the number of
instructions is not limited. -/
theorem Cuts.exists_behind (hlimit : settings.maxInstructions = none)
    (h : Cuts dialect settings pos number bytes instructions) (places distance : Nat)
    (hsize : pos + distance + bytes.length ≤ UInt32.size) :
    ∃ moved, Cuts dialect settings (pos + distance) (number + places) bytes moved ∧
      moved.map Instruction.placed =
        (instructions.map Instruction.placed).map (·.behind places distance) := by
  induction h with
  | nil => exact ⟨[], .nil _ _, rfl⟩
  | @cons pos number byte opcode operand bytes instructions _ hop hfits _ ih =>
    simp only [List.length_cons, List.length_append] at hsize
    obtain ⟨moved, hmoved, hplaced⟩ := ih (by omega)
    -- the next instruction starts at the same distance and has the next number
    rw [show pos + 1 + (written operand).length + distance =
        pos + distance + 1 + (written operand).length by omega,
      show number + 1 + places = number + places + 1 by omega] at hmoved
    refine ⟨_, .cons (atLimit?_of_none hlimit _) hop hfits hmoved, ?_⟩
    have hoffset := toNat_ofNat_add (show pos + distance < UInt32.size by omega)
    simp only [List.map_cons, hplaced, Instruction.placed, Placed.behind, hoffset]
    rfl

/-- **Bytes that are stuck are stuck in the same way further on**, and the
error names the place there. -/
theorem Stuck.behind {e : DecodeError} (hlimit : settings.maxInstructions = none)
    (h : Stuck dialect settings pos number bytes e) (pos' number' : Nat) :
    e.offset? = some (UInt32.ofNat pos) ∧
      Stuck dialect settings pos' number' bytes (e.withOffset (UInt32.ofNat pos')) := by
  have hfree := atLimit?_of_none hlimit number'
  cases h with
  | limit hstop =>
    rw [atLimit?_of_none hlimit] at hstop
    cases hstop
  | unknown _ hop => exact ⟨rfl, .unknown hfree hop⟩
  | operand _ hop hparse =>
    -- an operand is refused for one of two reasons, and both name the place
    obtain ⟨needed, rfl⟩ | ⟨declared, rfl⟩ := Operand.available_of_parse hparse
    · exact ⟨rfl, .operand hfree hop hparse⟩
    · exact ⟨rfl, .operand hfree hop hparse⟩

/-- Bytes that are cut from the start on are cut in the same way after others
that are. -/
theorem Cuts.exists_append {front : List UInt8} {others : List Instruction}
    (hlimit : settings.maxInstructions = none)
    (hfront : Cuts dialect settings 0 0 front instructions)
    (h : Cuts dialect settings 0 0 bytes others)
    (hsize : front.length + bytes.length ≤ UInt32.size) :
    ∃ moved, Cuts dialect settings 0 0 (front ++ bytes) (instructions ++ moved) ∧
      moved.map Instruction.placed =
        (others.map Instruction.placed).map (·.behind instructions.length front.length) := by
  obtain ⟨moved, hmoved, hplaced⟩ :=
    h.exists_behind hlimit instructions.length front.length (by omega)
  exact ⟨moved, hfront.append hmoved, hplaced⟩

/-! ## Decoding both parts -/

/-- **Decoding splits where an instruction ends.** After code that can be
decoded, more code is decoded as on its own: its instructions follow, with
the number of those before added to their numbers and the size of the code
before to their offsets; and where it cannot be decoded the error is the
same, with that size added to its offset. -/
theorem decode_append_of_decode (dialect : Dialect) {settings : Settings}
    (hlimit : settings.maxInstructions = none) {left right : Code}
    (hsize : left.size + right.size < UInt32.size) {d : Disassembly}
    (hleft : decode dialect settings left = .ok d) :
    (∀ d', decode dialect settings right = .ok d' →
      ∃ whole, decode dialect settings (left ++ right) = .ok whole ∧
        whole.instructions.map Instruction.placed =
          d.instructions.map Instruction.placed ++
            (d'.instructions.map Instruction.placed).map (·.behind d.size left.size)) ∧
    ∀ e, decode dialect settings right = .error e →
      ∃ offset moved : UInt32, e.offset? = some offset ∧
        moved.toNat = offset.toNat + left.size ∧
        decode dialect settings (left ++ right) = .error (e.withOffset moved) := by
  have hwhole : (left ++ right).size < UInt32.size := by rwa [Array.size_append]
  have hlength : left.toList.length = left.size := Array.length_toList
  obtain ⟨-, instructions, hcuts, rfl⟩ := decode_eq_ok_iff.1 hleft
  constructor
  · intro d' hright
    obtain ⟨-, others, hothers, rfl⟩ := decode_eq_ok_iff.1 hright
    obtain ⟨moved, hmoved, hplaced⟩ := hcuts.exists_append hlimit hothers hsize.le
    rw [← Array.toList_append] at hmoved
    refine ⟨_, decode_of_cuts hwhole hmoved, ?_⟩
    rw [map_placed_finish, map_placed_finish, map_placed_finish, List.map_append, hplaced,
      size_finish, hlength]
  · intro e hright
    obtain ⟨front, rest, others, hbytes, hothers, hstuck⟩ :=
      (decode_eq_error_iff (by omega)).1 hright
    have hlen := Code.size_of_append hbytes
    obtain ⟨moved, hmoved, -⟩ := hcuts.exists_append hlimit hothers (by omega)
    obtain ⟨hoffset, hstuck'⟩ :=
      hstuck.behind hlimit (left.toList ++ front).length (instructions ++ moved).length
    refine ⟨_, _, hoffset, ?_, decode_of_stuck hwhole ?_ hmoved hstuck'⟩
    · rw [List.length_append, Nat.add_comm, toNat_ofNat_add (by omega), hlength]
    · rw [Array.toList_append, hbytes, List.append_assoc]

/-- Behind three bytes with one instruction, an instruction is the second one
and starts at the fourth byte; an unknown opcode after it is found five bytes
from the start instead of two. -/
theorem decode_append_of_decode_varDialect :
    (∃ whole, decode varDialect {} #[1, 1, 7, 1, 0] = .ok whole ∧
      whole.instructions.map Instruction.placed =
        [⟨0, 0, ⟨⟨1, "VAR", "", .varCounted⟩, some ⟨.varCounted, [1], [7]⟩⟩⟩,
          ⟨1, 3, ⟨⟨1, "VAR", "", .varCounted⟩, some ⟨.varCounted, [0], []⟩⟩⟩]) ∧
      decode varDialect {} #[1, 1, 7, 1, 0, 9] = .error (.unknownOpCode 5 9) := by
  have hleft : Cuts varDialect {} 0 0 [1, 1, 7] _ :=
    @Cuts.single _ _ 0 0 1 _ (some ⟨.varCounted, [1], [7]⟩) rfl rfl (by decide)
  have hright : Cuts varDialect {} 0 0 [1, 0] _ :=
    @Cuts.single _ _ 0 0 1 _ (some ⟨.varCounted, [0], []⟩) rfl rfl (by decide)
  have hd : decode varDialect {} #[1, 1, 7] = .ok _ := decode_of_cuts (by decide) hleft
  have hd' : decode varDialect {} #[1, 0] = .ok _ := decode_of_cuts (by decide) hright
  have herror : decode varDialect {} #[1, 0, 9] = .error (.unknownOpCode 2 9) :=
    decode_of_stuck (by decide) (show _ = [1, 0] ++ [9] from rfl) hright (.unknown rfl rfl)
  constructor
  · obtain ⟨whole, hwhole, hplaced⟩ :=
      (decode_append_of_decode varDialect rfl (by decide) hd).1 _ hd'
    rw [map_placed_finish, map_placed_finish, size_finish] at hplaced
    exact ⟨whole, hwhole, hplaced⟩
  · obtain ⟨offset, moved, hoffset, hmoved, hwhole⟩ :=
      (decode_append_of_decode varDialect rfl (by decide) hd).2 _ herror
    obtain rfl : 2 = offset := Option.some.inj hoffset
    obtain rfl : moved = 5 := UInt32.toNat_inj.1 hmoved
    exact hwhole

end Disasm
