import Disasm.Proofs.JumpResolution
/-!
# What becomes of a dialect's notes

The jump and the comment of an instruction come from what the dialect noted
when it was shown the instruction, bare as it was cut. Filling in places
touches neither the comment nor the edge, which is the jump without the place
of its target. So both can be read off the note, given the instruction alone
and some index (`exists_note_of_decode`).
-/

namespace Disasm

/-- The jump without the place of its target. -/
def Jump.edge : Jump → Jump
  | .static target _ => .static target none
  | .dynamic jump => .dynamic jump

/-- The comment that a note leaves on an instruction that has none. -/
def Settings.commentOf (settings : Settings) (note : Option JumpNote) : Option String :=
  if settings.annotateJumps then note.bind (·.comment) else none

variable {dialect : Dialect} {settings : Settings} {code : Code} {d : Disassembly}

/-- Filling in leaves the edge as it is. -/
theorem Jump.edge_settle (index : OffsetIndex) (jump : Jump) :
    (jump.settle index).1.edge = jump.edge := by
  cases jump with
  | dynamic jump => rfl
  | static target known =>
    rw [Disassembly.settle_static]
    rfl

theorem Jump.edge_eq_dynamic {jump : Jump} {dynamic : DynamicJump} :
    jump.edge = .dynamic dynamic ↔ jump = .dynamic dynamic := by
  cases jump <;> simp [edge]

/-- A note comments on an instruction that has no comment. -/
theorem comment_applyNote {instruction : Instruction} (h : instruction.comment = none)
    (settings : Settings) (note : Option JumpNote) :
    (applyNote settings instruction note).comment = settings.commentOf note := by
  cases note with
  | none =>
    rw [applyNote, h, Settings.commentOf]
    split <;> rfl
  | some note =>
    show (if settings.annotateJumps then _ else instruction).comment = _
    rw [Settings.commentOf]
    split
    · cases hcomment : note.comment with
      | none => exact h.trans hcomment.symm
      | some comment => simp [Instruction.annotate, h, hcomment]
    · exact h

/-- Filling in leaves comments alone. -/
theorem comment_settleJump (index : OffsetIndex) (instruction : Instruction) :
    (Disassembly.settleJump index instruction).1.comment = instruction.comment := by
  unfold Disassembly.settleJump
  split <;> rfl

/-- What linking makes of an instruction, by the note on it. -/
theorem Cuts.exists_note_of_link {bytes : List UInt8} {instructions : List Instruction}
    (h : Cuts dialect settings 0 0 bytes instructions) (hsize : bytes.length ≤ UInt32.size)
    {place : Nat} {instruction : Instruction}
    (hget : (link dialect settings instructions).get? place = some instruction) :
    ∃ index, instruction.comment = settings.commentOf (dialect.note? instruction.bare index) ∧
      instruction.jump = (dialect.note? instruction.bare index).map (·.jump) := by
  rw [Disassembly.get?, instructions_link, List.getElem?_map] at hget
  obtain ⟨visit, hvisit, rfl⟩ := Option.map_eq_some_iff.1 hget
  obtain ⟨hinstruction, -, -⟩ := h.visit_of_getElem? hsize hvisit
  obtain ⟨-, hcomment, hjump⟩ := h.place_of_getElem? hinstruction
  -- the dialect was shown the instruction as it was cut, which is bare
  have hbare : (visit.linked dialect settings).bare = visit.instruction := by
    rw [Visit.linked, Instruction.bare_applyNote]
    obtain ⟨⟨number, offset, opcode, operand, comment, jump⟩, index, entered⟩ := visit
    subst hcomment hjump
    rfl
  refine ⟨visit.index, ?_, ?_⟩
  · rw [hbare, Visit.linked, comment_applyNote hcomment]
  · rw [hbare, Visit.linked, jump_applyNote, hjump, Option.or_none]

/-- **The comment and the edge of an instruction are those of the dialect's note
on it.** -/
theorem exists_note_of_decode (h : decode dialect settings code = .ok d) {place : Nat}
    {instruction : Instruction} (hget : d.get? place = some instruction) :
    ∃ index, instruction.comment = settings.commentOf (dialect.note? instruction.bare index) ∧
      instruction.jump.map Jump.edge =
        (dialect.note? instruction.bare index).map (·.jump.edge) := by
  obtain ⟨hcode, instructions, hcuts, rfl⟩ := decode_eq_ok_iff.1 h
  unfold finish at hget
  split at hget
  · rw [Disassembly.get?_resolvePendingJumps] at hget
    obtain ⟨linked, hlinked, rfl⟩ := Option.map_eq_some_iff.1 hget
    obtain ⟨index, hcomment, hjump⟩ := hcuts.exists_note_of_link hcode.le hlinked
    refine ⟨index, ?_, ?_⟩
    · rw [comment_settleJump, Instruction.bare_settleJump, hcomment]
    · rw [Disassembly.jump_settleJump, Instruction.bare_settleJump, hjump]
      simp [Function.comp_def, Jump.edge_settle]
  · obtain ⟨index, hcomment, hjump⟩ := hcuts.exists_note_of_link hcode.le hget
    refine ⟨index, hcomment, ?_⟩
    rw [hjump, Option.map_map]
    rfl

/-- A dynamic jump of an instruction is one that the dialect noted. -/
theorem exists_note_of_dynamic (h : decode dialect settings code = .ok d) {place : Nat}
    {instruction : Instruction} {jump : DynamicJump} (hget : d.get? place = some instruction)
    (hjump : instruction.jump = some (.dynamic jump)) :
    ∃ index note, dialect.note? instruction.bare index = some note ∧
      note.jump = .dynamic jump := by
  obtain ⟨index, -, hedge⟩ := exists_note_of_decode h hget
  rw [hjump] at hedge
  obtain ⟨note, hnote, hsame⟩ := Option.map_eq_some_iff.1 hedge.symm
  exact ⟨index, note, hnote, Jump.edge_eq_dynamic.1 hsame⟩

end Disasm
