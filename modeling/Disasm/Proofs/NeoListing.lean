import Disasm.Proofs.NeoEdges
import Disasm.Proofs.Recounting
import Mathlib.Data.List.Nodup
/-!
# The listing of NEO code

Every line of a NEO listing can be read, since the names of the instruction
set are plain and the comments of its transfers are short. So a listing shows
as many lines as there are instructions, and tells the code but for the count
before the last payload. Nothing else of the code is lost, and that much
always is: whichever way the last count is written, the lines are the same,
because a comment depends on the instruction it stands at and on nothing else
(`listing_loses_nothing`).
-/

namespace Disasm

namespace Neo

open Instruction (bare shown)

variable {settings : Settings} {code other : Code} {d e : Disassembly}

/-! ## What the instruction set says -/

/-- The names of the instruction set have no marks in them. -/
theorem name_plain : ∀ opcode ∈ opcodes, ∀ c ∈ opcode.name.toList, isNameChar c := by
  have hall : (opcodes.all fun opcode => opcode.name.toList.all isNameChar) = true := by
    decide +kernel
  intro opcode hop
  exact List.all_eq_true.1 (List.all_eq_true.1 hall opcode hop)

/-- A name as a number, its bytes being the digits. Numbers are quicker to
compare than names. -/
def spelling (name : String) : Nat :=
  name.toByteArray.data.toList.foldl (fun n b => 256 * n + b.toNat) 0

theorem nodup_spellings : (opcodes.map fun opcode => spelling opcode.name).Nodup := by
  decide +kernel

/-- No two opcodes of NEO code have one name. -/
theorem namesOnce_dialect : dialect.NamesOnce := by
  intro byte byte' opcode opcode' hop hop' hname
  exact List.inj_on_of_nodup_map nodup_spellings (mem_opcodes_of_get? hop)
    (mem_opcodes_of_get? hop') (congrArg spelling hname)

/-- What has a variable count transfers no control. -/
theorem transfer_of_varCounted : ∀ opcode ∈ opcodes, opcode.shape = .varCounted →
    Transfer.ofByte? opcode.byte = none := by
  decide +kernel

/-! ## Comments -/

/-- The comment at an instruction does not depend on what the index knows. -/
theorem comment_note? (instruction : Instruction) (index index' : OffsetIndex) :
    (note? instruction index).bind (·.comment) = (note? instruction index').bind (·.comment) := by
  unfold note?
  split <;> cases relativeTarget? instruction <;> rfl

theorem newline_notMem_targetText {verb : String} (hverb : '\n' ∉ verb.toList) (target : UInt32) :
    '\n' ∉ (verb ++ targetText target).toList := by
  rw [targetText_eq, String.toList_append, String.toList_append]
  simp only [List.mem_append, not_or]
  refine ⟨⟨hverb, by decide⟩, fun hmem => ?_⟩
  exact absurd (Hex.mem_upperNumeral hmem) (by decide)

/-- And it is one line. -/
theorem newline_notMem_comment {instruction : Instruction} {index : OffsetIndex} {comment : String}
    (h : (note? instruction index).bind (·.comment) = some comment) : '\n' ∉ comment.toList := by
  unfold note? at h
  cases htarget : relativeTarget? instruction with
  | none =>
    rw [htarget] at h
    split at h <;> cases h
  | some target =>
    rw [htarget] at h
    split at h
    · cases h
    · obtain rfl := Option.some.inj h
      exact newline_notMem_targetText (by decide) target
    · obtain rfl := Option.some.inj h
      exact newline_notMem_targetText (by decide) target
    · obtain rfl := Option.some.inj h
      refine newline_notMem_targetText ?_ target
      split <;> decide
    · cases h

/-- The comment that the dialect makes on an instruction, under the given
settings. -/
def remark (settings : Settings) (instruction : Instruction) : Option String :=
  settings.commentOf (note? instruction ∅)

/-- The comments of a disassembly are these. -/
theorem comment_of_decode (h : decode dialect settings code = .ok d) {instruction : Instruction}
    (hmem : instruction ∈ d.instructions) :
    instruction.comment = remark settings instruction.bare := by
  obtain ⟨place, hget⟩ := List.getElem?_of_mem hmem
  obtain ⟨index, hcomment, -⟩ := exists_note_of_decode h hget
  rw [hcomment, remark, Settings.commentOf, Settings.commentOf]
  split_ifs
  · exact comment_note? instruction.bare index ∅
  · rfl

/-! ## Lines -/

/-- **Every line of a NEO listing can be read.** -/
theorem legible_of_decode (h : decode dialect settings code = .ok d) :
    ∀ instruction ∈ d.instructions, instruction.Legible := by
  intro instruction hmem
  refine ⟨name_plain _ (mem_opcodes_of_decode h hmem).1, ?_⟩
  have hcomment := comment_of_decode h hmem
  rw [remark, Settings.commentOf] at hcomment
  unfold Instruction.commentText
  split
  · decide
  · decide
  · rename_i comment _ hsome
    rw [hsome] at hcomment
    split_ifs at hcomment
    rw [String.toList_append, List.mem_append, not_or]
    exact ⟨by decide, newline_notMem_comment hcomment.symm⟩

/-- The line of an instruction as it was cut. -/
def line (settings : Settings) (instruction : Instruction) : String :=
  { instruction with comment := remark settings instruction }.text

/-- A listing is the lines of the instructions as they were cut. -/
theorem listing_of_decode (h : decode dialect settings code = .ok d) :
    d.listing = String.join ((d.instructions.map bare).map fun instruction =>
      line settings instruction ++ "\n") := by
  rw [Disassembly.listing, List.map_map]
  refine congrArg String.join (List.map_congr_left fun instruction hmem => ?_)
  have hline : instruction.text = line settings instruction.bare := by
    rw [line, ← comment_of_decode h hmem]
    rfl
  rw [hline]
  rfl

/-- However the last count is written, the lines are the same. -/
theorem listing_of_recounted (hd : decode dialect settings code = .ok d)
    (he : decode dialect settings other = .ok e)
    (h : Recounted dialect settings 0 0 code.toList other.toList) : d.listing = e.listing := by
  obtain ⟨front, instructions, byte, opcode, field, field', payload, hcuts, hop, hshape, hcount,
    hcount', hcode, hother⟩ := h
  have hfits : ∀ field, Operand.VarCount field payload.length →
      opcode.shape.Fits (some ⟨.varCounted, field, payload⟩) :=
    fun field hfield => ⟨hshape.symm, hfield⟩
  have hsilent : ∀ instruction : Instruction, instruction.opcode = opcode →
      remark settings instruction = none := by
    intro instruction hsame
    rw [remark, note?, hsame, transfer_of_varCounted opcode (mem_opcodes_of_get? hop) hshape,
      Settings.commentOf]
    split_ifs <;> rfl
  have hlast : ∀ number offset,
      line settings { number, offset, opcode, operand := some ⟨.varCounted, field, payload⟩ } =
        line settings
          { number, offset, opcode, operand := some ⟨.varCounted, field', payload⟩ } := by
    intro number offset
    rw [line, line, hsilent _ rfl, hsilent _ rfl]
    exact Instruction.text_of_shown rfl rfl
  rw [listing_of_decode hd, listing_of_decode he,
    map_bare_of_decode_concat hd hcode hcuts hop (hfits field hcount),
    map_bare_of_decode_concat he hother hcuts hop (hfits field' hcount')]
  rw [List.map_append, List.map_append, List.map_singleton, List.map_singleton, hlast]

/-- **The code can be told from its listing**, but for the last count. -/
theorem eq_or_recounted_of_listing (hd : decode dialect settings code = .ok d)
    (he : decode dialect settings other = .ok e) (h : d.listing = e.listing) :
    code = other ∨ Recounted dialect settings 0 0 code.toList other.toList := by
  obtain ⟨hcode, -⟩ := decode_eq_ok_iff.1 hd
  obtain ⟨hother, -⟩ := decode_eq_ok_iff.1 he
  have hbare : ∀ instructions : List Instruction,
      (instructions.map bare).map shown = instructions.map shown := fun _ => List.map_map ..
  have hshown : (d.instructions.map bare).map shown = (e.instructions.map bare).map shown := by
    rw [hbare, hbare]
    exact map_shown_of_listing (legible_of_decode hd) (legible_of_decode he) h
  have hcoherent : dialect.Coherent := by
    intro byte opcode hop
    exact coherent_table byte opcode hop
  obtain hsame | hrecounted := (cuts_of_decode hd).eq_or_recounted hcoherent
    namesOnce_dialect (cuts_of_decode he) (by simpa using hcode) (by simpa using hother) hshown
  · exact .inl (Array.toList_inj.1 hsame)
  · exact .inr hrecounted

/-- **A NEO listing loses nothing but the form of the last count.** It has one
line for each instruction. Listings of two codes are the same just if the
codes are, or differ in how the count before the last payload is written; so
among codes of one length the listing tells the code. -/
theorem listing_loses_nothing (hd : decode dialect settings code = .ok d)
    (he : decode dialect settings other = .ok e) :
    d.listing.toList.count '\n' = d.size ∧
      (d.listing = e.listing ↔
        code = other ∨ Recounted dialect settings 0 0 code.toList other.toList) ∧
      (code.size = other.size → d.listing = e.listing → code = other) := by
  refine ⟨Disassembly.count_newline_listing (legible_of_decode hd),
    ⟨eq_or_recounted_of_listing hd he, ?_⟩, ?_⟩
  · rintro (rfl | hrecounted)
    · rw [Except.ok.inj (hd.symm.trans he)]
    · exact listing_of_recounted hd he hrecounted
  · intro hsize hlisting
    rcases eq_or_recounted_of_listing hd he hlisting with hsame | hrecounted
    · exact hsame
    · exact Array.toList_inj.1 (hrecounted.eq_of_length hsize)

/-- A call with its count in one byte and in three is listed alike; another call
of the same length is not. -/
theorem listing_loses_nothing_syscall :
    ∃ narrow wide another, decode dialect {} #[0x61, 0x68, 1, 7] = .ok narrow ∧
      decode dialect {} #[0x61, 0x68, 0xfd, 1, 0, 7] = .ok wide ∧
      decode dialect {} #[0x61, 0x68, 1, 8] = .ok another ∧
      narrow.listing.toList.count '\n' = 2 ∧ narrow.listing = wide.listing ∧
      narrow.listing ≠ another.listing := by
  have hfront : Cuts dialect {} 0 0 [0x61] _ :=
    @Cuts.single _ _ 0 0 0x61 _ none rfl opcode?_nop (by decide)
  have hcuts : ∀ field payload, Operand.VarCount field payload.length →
      Cuts dialect {} 0 0 ([0x61] ++ 0x68 :: (field ++ payload)) _ := fun field payload hcount =>
    hfront.append (@Cuts.single _ _ 1 1 0x68 _ (some ⟨.varCounted, field, payload⟩) rfl
      opcode?_syscall ⟨rfl, hcount⟩)
  have hnarrow : decode dialect {} #[0x61, 0x68, 1, 7] = .ok _ :=
    decode_of_cuts (by decide) (hcuts [1] [7] (by decide))
  have hwide : decode dialect {} #[0x61, 0x68, 0xfd, 1, 0, 7] = .ok _ :=
    decode_of_cuts (by decide) (hcuts [0xfd, 1, 0] [7] (by decide))
  have hanother : decode dialect {} #[0x61, 0x68, 1, 8] = .ok _ :=
    decode_of_cuts (by decide) (hcuts [1] [8] (by decide))
  have hrecounted : Recounted dialect {} 0 0 [0x61, 0x68, 1, 7] [0x61, 0x68, 0xfd, 1, 0, 7] :=
    ⟨[0x61], _, 0x68, _, [1], [0xfd, 1, 0], [7], hfront, opcode?_syscall, rfl, by decide,
      by decide, rfl, rfl⟩
  refine ⟨_, _, _, hnarrow, hwide, hanother, ?_, ?_, ?_⟩
  · rw [(listing_loses_nothing hnarrow hwide).1, size_finish]
    rfl
  · exact (listing_loses_nothing hnarrow hwide).2.1.2 (.inr hrecounted)
  · intro hlisting
    exact absurd ((listing_loses_nothing hnarrow hanother).2.2 rfl hlisting) (by decide)

end Neo

end Disasm
