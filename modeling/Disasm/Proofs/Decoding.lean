import Disasm.Proofs.Cutting
import Disasm.Proofs.ListFacts
/-!
# Decoding, from the bytes alone

Linking adds jumps and comments to the instructions that were cut and touches
nothing else of them. So a disassembly, with the additions left out, is what
its code is cut into (`cuts_of_decode`), and decoding succeeds and fails with
cutting: `decode_eq_ok_iff` and `decode_eq_error_iff`.
-/

namespace Disasm

/-! ## What linking leaves alone -/

namespace Instruction

/-- The instruction without what a dialect adds to it. -/
def bare (instruction : Instruction) : Instruction :=
  { instruction with comment := none, jump := none }

variable (instruction : Instruction)

@[simp] theorem number_bare : instruction.bare.number = instruction.number := rfl

@[simp] theorem offset_bare : instruction.bare.offset = instruction.offset := rfl

@[simp] theorem bare_annotate (comment : String) :
    (instruction.annotate comment).bare = instruction.bare := by
  unfold annotate
  split <;> rfl

@[simp] theorem bare_applyNote (settings : Settings) (note : Option JumpNote) :
    (applyNote settings instruction note).bare = instruction.bare := by
  cases note with
  | none => rfl
  | some note =>
    rw [applyNote]
    -- the jump is left out by `bare`, so only the comment is looked at
    show Instruction.bare (if settings.annotateJumps then _ else _) = _
    split
    · split
      · exact bare_annotate _ _
      · rfl
    · rfl

@[simp] theorem bare_settleJump (index : OffsetIndex) :
    (Disassembly.settleJump index instruction).1.bare = instruction.bare := by
  unfold Disassembly.settleJump
  split <;> rfl

end Instruction

open Instruction (bare)

/-- Jumps and comments are not written. -/
theorem flatMap_encode_bare (instructions : List Instruction) :
    (instructions.map bare).flatMap Instruction.encode =
      instructions.flatMap Instruction.encode :=
  List.flatMap_map ..

variable (dialect : Dialect) (settings : Settings)

/-- Linking keeps the instructions, in order. -/
theorem map_bare_foldl_linkOne (instructions : List Instruction) (linked : Linked) :
    (instructions.foldl (linkOne dialect settings) linked).instructions.toList.map bare =
      linked.instructions.toList.map bare ++ instructions.map bare := by
  induction instructions generalizing linked with
  | nil => simp
  | cons instruction instructions ih =>
    rw [List.foldl_cons, ih]
    simp [linkOne]

theorem map_bare_link (instructions : List Instruction) :
    (link dialect settings instructions).instructions.map bare = instructions.map bare := by
  rw [link, map_bare_foldl_linkOne]
  simp

/-- And so does filling in the places of targets. -/
theorem map_bare_resolvePendingJumps (d : Disassembly) :
    d.resolvePendingJumps.2.instructions.map bare = d.instructions.map bare := by
  simp [Disassembly.resolvePendingJumps, Function.comp_def]

/-- The disassembly that decoding makes of instructions once they are cut. -/
def finish (instructions : List Instruction) : Disassembly :=
  if settings.resolveForwardJumps then
    (link dialect settings instructions).resolvePendingJumps.2
  else link dialect settings instructions

/-- **Nothing but jumps and comments is added to what was cut.** -/
theorem map_bare_finish (instructions : List Instruction) :
    (finish dialect settings instructions).instructions.map bare = instructions.map bare := by
  unfold finish
  split
  · rw [map_bare_resolvePendingJumps, map_bare_link]
  · exact map_bare_link dialect settings instructions

/-- So what looks at neither is the same as before. -/
theorem map_finish {α : Type} {f : Instruction → α}
    (hf : ∀ instruction, f instruction.bare = f instruction) (instructions : List Instruction) :
    (finish dialect settings instructions).instructions.map f = instructions.map f :=
  List.map_eq_of_map_eq (map_bare_finish dialect settings instructions) hf

theorem size_finish (instructions : List Instruction) :
    (finish dialect settings instructions).size = instructions.length := by
  rw [Disassembly.size, ← List.length_map bare, map_bare_finish, List.length_map]

/-! ## Decoding succeeds and fails with cutting -/

variable {dialect settings} {code : Code} {d : Disassembly}

/-- Instructions that are cut off have neither jump nor comment. -/
theorem Cuts.map_bare {pos number : Nat} {bytes : List UInt8} {instructions : List Instruction}
    (h : Cuts dialect settings pos number bytes instructions) :
    instructions.map bare = instructions := by
  induction h with
  | nil => rfl
  | cons _ _ _ _ ih => rw [List.map_cons, ih]; rfl

theorem decode_of_cuts {instructions : List Instruction} (hcode : code.size < UInt32.size)
    (h : Cuts dialect settings 0 0 code.toList instructions) :
    decode dialect settings code = .ok (finish dialect settings instructions) := by
  rw [decode, if_neg (by omega), cut_of_cuts hcode h]
  rfl

theorem decode_of_stuck {front rest : List UInt8} {instructions : List Instruction}
    {e : DecodeError} (hcode : code.size < UInt32.size) (hbytes : code.toList = front ++ rest)
    (h : Cuts dialect settings 0 0 front instructions)
    (hstuck : Stuck dialect settings front.length instructions.length rest e) :
    decode dialect settings code = .error e := by
  rw [decode, if_neg (by omega), cut_of_stuck hcode hbytes h hstuck]
  rfl

/-- A first part of the code whose bytes are cut to their end. -/
theorem decode_extract_of_cuts {front rest : List UInt8} {instructions : List Instruction}
    (hfront : front.length < UInt32.size) (hbytes : code.toList = front ++ rest)
    (h : Cuts dialect settings 0 0 front instructions) :
    decode dialect settings (code.extract 0 front.length) =
      .ok (finish dialect settings instructions) := by
  have hpart : (code.extract 0 front.length).toList = front := by
    rw [Code.toList_extract_zero, hbytes, List.take_left]
  rw [← hpart] at h
  exact decode_of_cuts (by rwa [← Array.length_toList, hpart]) h

theorem decode_of_size_le (h : UInt32.size ≤ code.size) :
    decode dialect settings code = .error (.streamTooLarge code.size) := by
  rw [decode, if_pos h]

/-- The bytes of the code are cut to their end, or up to where they are
stuck. -/
theorem cuts_or_stuck_code (dialect : Dialect) (settings : Settings) (code : Code) :
    (∃ instructions, Cuts dialect settings 0 0 code.toList instructions) ∨
    ∃ front rest instructions e, code.toList = front ++ rest ∧
      Cuts dialect settings 0 0 front instructions ∧
      Stuck dialect settings front.length instructions.length rest e := by
  simpa only [Nat.zero_add] using cuts_or_stuck dialect settings 0 0 code.toList

/-- **Decoding succeeds on the code whose bytes are cut to their end.** -/
theorem decode_eq_ok_iff :
    decode dialect settings code = .ok d ↔ code.size < UInt32.size ∧
      ∃ instructions, Cuts dialect settings 0 0 code.toList instructions ∧
        d = finish dialect settings instructions := by
  constructor
  · intro h
    rcases Nat.lt_or_ge code.size UInt32.size with hcode | hcode
    · obtain ⟨instructions, hcuts⟩ | ⟨front, rest, instructions, e, hbytes, hcuts, hstuck⟩ :=
        cuts_or_stuck_code dialect settings code
      · rw [decode_of_cuts hcode hcuts] at h
        exact ⟨hcode, instructions, hcuts, (Except.ok.inj h).symm⟩
      · rw [decode_of_stuck hcode hbytes hcuts hstuck] at h
        cases h
    · rw [decode_of_size_le hcode] at h
      cases h
  · rintro ⟨hcode, instructions, hcuts, rfl⟩
    exact decode_of_cuts hcode hcuts

/-- **And fails where they are stuck**, for the reason there. -/
theorem decode_eq_error_iff {e : DecodeError} (hcode : code.size < UInt32.size) :
    decode dialect settings code = .error e ↔
      ∃ front rest instructions, code.toList = front ++ rest ∧
        Cuts dialect settings 0 0 front instructions ∧
        Stuck dialect settings front.length instructions.length rest e := by
  constructor
  · intro h
    obtain ⟨instructions, hcuts⟩ | ⟨front, rest, instructions, e', hbytes, hcuts, hstuck⟩ :=
      cuts_or_stuck_code dialect settings code
    · rw [decode_of_cuts hcode hcuts] at h
      cases h
    · rw [decode_of_stuck hcode hbytes hcuts hstuck] at h
      obtain rfl : e' = e := Except.error.inj h
      exact ⟨front, rest, instructions, hbytes, hcuts, hstuck⟩
  · rintro ⟨front, rest, instructions, hbytes, hcuts, hstuck⟩
    exact decode_of_stuck hcode hbytes hcuts hstuck

/-- **A disassembly is what its code is cut into**, with jumps and comments
added. -/
theorem cuts_of_decode (h : decode dialect settings code = .ok d) :
    Cuts dialect settings 0 0 code.toList (d.instructions.map bare) := by
  obtain ⟨-, instructions, hcuts, rfl⟩ := decode_eq_ok_iff.1 h
  rwa [map_bare_finish, hcuts.map_bare]

end Disasm
