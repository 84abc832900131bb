import Disasm.Disassembly
import Disasm.Proofs.HexText
import Disasm.Proofs.ListFacts
/-!
# Reading a listing back

A line of the listing shows the offset of an instruction, the name of its
opcode and its payload. They can be read off the line again, up to one mark
after the other, when none of the marks stands in a name (`shown_of_text`). A
listing ends every line, so when no comment breaks its line the lines can be
told apart too (`map_shown_of_listing`), and counted
(`count_newline_listing`).
-/

namespace Disasm

/-- A capital, a decimal digit or a low line. -/
def isNameChar (c : Char) : Bool :=
  c.isUpper || c.isDigit || c == '_'

/-- What a line of the listing shows of an instruction. -/
structure Shown where
  offset : UInt32
  name : String
  payload : List UInt8
deriving DecidableEq, Repr

/-- The payload of an operand that need not be there. -/
def Operand.carried (operand : Option Operand) : List UInt8 :=
  (operand.map Operand.payload).getD []

namespace Instruction

/-- The payload of the instruction. -/
def payload (instruction : Instruction) : List UInt8 :=
  Operand.carried instruction.operand

/-- What the line of the instruction shows of it. -/
def shown (instruction : Instruction) : Shown :=
  ⟨instruction.offset, instruction.opcode.name, instruction.payload⟩

/-- **The line of the instruction can be read**: the name has no marks in it,
and the comment does not break the line. -/
structure Legible (instruction : Instruction) : Prop where
  name_plain : ∀ c ∈ instruction.opcode.name.toList, isNameChar c
  comment_unbroken : '\n' ∉ instruction.commentText.toList

variable {instruction other : Instruction}

/-! ## The parts of a line -/

theorem operandText_eq (instruction : Instruction) :
    instruction.operandText = if instruction.payload.isEmpty then instruction.opcode.name
      else "0x" ++ Hex.ofBytes instruction.payload := by
  cases hoperand : instruction.operand with
  | none => simp [operandText, payload, Operand.carried, hoperand]
  | some operand =>
    simp only [operandText, payload, Operand.carried, hoperand, Option.map_some, Option.getD_some]
    split_ifs with hempty
    · rfl
    · simp [Operand.text, Operand.hex, hempty]

theorem toList_text (instruction : Instruction) :
    instruction.text.toList =
      '[' :: ((Hex.column instruction.offset.toNat).toList ++ ']' :: ' ' ::
        (instruction.opcode.name.toList ++ ' ' :: '[' ::
          (instruction.operandText.toList ++ ']' :: instruction.commentText.toList))) := by
  simp [text, String.toList_append]

/-- The line depends on what it shows, and on the comment. -/
theorem text_of_shown (h : instruction.shown = other.shown)
    (hcomment : instruction.commentText = other.commentText) : instruction.text = other.text := by
  obtain ⟨hoffset, hname, hpayload⟩ := Shown.mk.inj h
  rw [text, text, operandText_eq, operandText_eq, hoffset, hname, hpayload, hcomment]

theorem notMem_column {c : Char} (offset : Nat) (hblank : c ≠ ' ') (hdigit : c ∉ Hex.digits) :
    c ∉ (Hex.column offset).toList := by
  intro hmem
  rcases Hex.mem_column hmem with h | h
  · exact hblank h
  · exact hdigit h

theorem Legible.notMem_name {c : Char} (h : instruction.Legible) (hc : isNameChar c = false) :
    c ∉ instruction.opcode.name.toList := by
  intro hmem
  rw [h.name_plain c hmem] at hc
  cases hc

theorem Legible.notMem_operandText {c : Char} (h : instruction.Legible)
    (hc : isNameChar c = false) (hx : c ≠ 'x') (hdigit : c ∉ Hex.digits) :
    c ∉ instruction.operandText.toList := by
  rw [operandText_eq]
  split_ifs
  · exact h.notMem_name hc
  · have hzero : c ≠ '0' := fun heq => hdigit (by rw [heq]; decide)
    rw [String.toList_append]
    intro hmem
    rcases List.mem_append.1 hmem with hmem | hmem
    · simp [hx, hzero] at hmem
    · exact hdigit (Hex.mem_ofBytes hmem)

/-- A line that can be read is one line. -/
theorem Legible.newline_notMem_text (h : instruction.Legible) :
    '\n' ∉ instruction.text.toList := by
  rw [toList_text]
  simp only [List.mem_cons, List.mem_append, not_or]
  exact ⟨by decide, notMem_column _ (by decide) (by decide), by decide, by decide,
    h.notMem_name (by decide), by decide, by decide,
    h.notMem_operandText (by decide) (by decide) (by decide), by decide, h.comment_unbroken⟩

/-! ## From the line to the instruction -/

/-- A payload is never taken for a name: a name has no `x`. -/
theorem Legible.payload_of_operandText (h : instruction.Legible) (h' : other.Legible)
    (htext : instruction.operandText = other.operandText) :
    instruction.payload = other.payload := by
  have hmark : ∀ (name : String) (bytes : List UInt8), 'x' ∉ name.toList →
      name ≠ "0x" ++ Hex.ofBytes bytes := by
    rintro name bytes hx rfl
    simp [String.toList_append] at hx
  rw [operandText_eq, operandText_eq] at htext
  split_ifs at htext with hempty hempty' hempty'
  · rw [List.isEmpty_iff.1 hempty, List.isEmpty_iff.1 hempty']
  · exact absurd htext (hmark _ _ (h.notMem_name (by decide)))
  · exact absurd htext.symm (hmark _ _ (h'.notMem_name (by decide)))
  · exact Hex.ofBytes_injective ((String.append_right_inj _).1 htext)

/-- **What a line shows can be read off it.** -/
theorem Legible.shown_of_text (h : instruction.Legible) (h' : other.Legible)
    (htext : instruction.text = other.text) : instruction.shown = other.shown := by
  have hline := congrArg String.toList htext
  rw [toList_text, toList_text] at hline
  -- the offset ends at the first `]`, the name at the next blank, the operand at the next `]`
  obtain ⟨hcolumn, hline⟩ := List.eq_and_eq_of_append_cons (notMem_column _ (by decide) (by decide))
    (notMem_column _ (by decide) (by decide)) (List.cons.inj hline).2
  obtain ⟨hname, hline⟩ := List.eq_and_eq_of_append_cons (h.notMem_name (by decide))
    (h'.notMem_name (by decide)) (List.cons.inj hline).2
  obtain ⟨hoperand, -⟩ := List.eq_and_eq_of_append_cons
    (h.notMem_operandText (by decide) (by decide) (by decide))
    (h'.notMem_operandText (by decide) (by decide) (by decide)) (List.cons.inj hline).2
  have hoffset : instruction.offset = other.offset :=
    UInt32.toNat_inj.1 (Hex.column_injective (String.toList_inj.1 hcolumn))
  rw [shown, shown, hoffset, String.toList_inj.1 hname,
    h.payload_of_operandText h' (String.toList_inj.1 hoperand)]

end Instruction

/-! ## Listings -/

open Instruction (shown)

/-- A listing is its lines, every one with its end. -/
theorem Disassembly.toList_listing (d : Disassembly) :
    d.listing.toList =
      d.instructions.flatMap fun instruction => instruction.text.toList ++ ['\n'] := by
  rw [listing, String.toList_join, List.flatMap_map]
  simp [String.toList_append]

/-- **A listing has as many lines as there are instructions.** -/
theorem Disassembly.count_newline_listing {d : Disassembly}
    (h : ∀ instruction ∈ d.instructions, instruction.Legible) :
    d.listing.toList.count '\n' = d.size := by
  rw [toList_listing, size]
  generalize d.instructions = instructions at h
  induction instructions with
  | nil => rfl
  | cons instruction instructions ih =>
    obtain ⟨hfirst, hrest⟩ := List.forall_mem_cons.1 h
    rw [List.flatMap_cons, List.count_append, List.count_append,
      List.count_eq_zero_of_not_mem hfirst.newline_notMem_text, ih hrest, List.length_cons,
      Nat.zero_add, Nat.add_comm]
    rfl

/-- Lines that can be read can be told apart. -/
theorem map_shown_of_lines {instructions others : List Instruction}
    (h : ∀ instruction ∈ instructions, instruction.Legible)
    (h' : ∀ instruction ∈ others, instruction.Legible)
    (hlines : (instructions.flatMap fun instruction => instruction.text.toList ++ ['\n']) =
      others.flatMap fun instruction => instruction.text.toList ++ ['\n']) :
    instructions.map shown = others.map shown := by
  induction instructions generalizing others with
  | nil =>
    cases others with
    | nil => rfl
    | cons other others => simp at hlines
  | cons instruction instructions ih =>
    cases others with
    | nil => simp at hlines
    | cons other others =>
      obtain ⟨hfirst, hrest⟩ := List.forall_mem_cons.1 h
      obtain ⟨hfirst', hrest'⟩ := List.forall_mem_cons.1 h'
      simp only [List.flatMap_cons, List.append_assoc, List.singleton_append] at hlines
      obtain ⟨hline, hlines⟩ :=
        List.eq_and_eq_of_append_cons hfirst.newline_notMem_text hfirst'.newline_notMem_text hlines
      rw [List.map_cons, List.map_cons, ih hrest hrest' hlines,
        hfirst.shown_of_text hfirst' (String.toList_inj.1 hline)]

/-- **What a listing shows of the instructions can be read off it.** -/
theorem map_shown_of_listing {d e : Disassembly}
    (h : ∀ instruction ∈ d.instructions, instruction.Legible)
    (h' : ∀ instruction ∈ e.instructions, instruction.Legible) (hlisting : d.listing = e.listing) :
    d.instructions.map shown = e.instructions.map shown := by
  refine map_shown_of_lines h h' ?_
  rw [← d.toList_listing, ← e.toList_listing, hlisting]

end Disasm
