import Disasm.Proofs.HexText
import Disasm.Proofs.Notes
import Disasm.Proofs.RoundTrip
/-!
# The edges of NEO code

Which edges NEO code has is a matter of its bytes: four opcodes lead to the
offset that lies a signed distance of two bytes from their own, one goes back
to the caller, and the others go on to the next instruction. `Edges` says so
by the names of the opcodes, with the target worked out in the integers, and
says what the comments are. `edges_of_decode` is the result: the jumps and
comments of a disassembly are these, and no others.
-/

namespace Disasm

/-! ## Opcodes found in a table -/

/-- What a table finds was in it before or has been entered. -/
theorem OpCodeTable.mem_of_get?_extend {table : OpCodeTable} {opcodes : List OpCode}
    {byte : UInt8} {opcode : OpCode} (h : (table.extend opcodes).get? byte = some opcode) :
    opcode ∈ opcodes ∨ table.get? byte = some opcode := by
  induction opcodes generalizing table with
  | nil => exact .inr h
  | cons first opcodes ih =>
    rcases ih h with hmem | hinsert
    · exact .inl (List.mem_cons_of_mem _ hmem)
    · rw [get?_insert] at hinsert
      split_ifs at hinsert with hbyte
      · obtain rfl := Option.some.inj hinsert
        exact .inl List.mem_cons_self
      · exact .inr hinsert

namespace Neo

theorem opcode?_dialect : dialect.opcode? = table.get? := rfl

theorem coherent_table : table.Coherent := OpCodeTable.coherent_empty.extend opcodes

/-- An opcode of NEO code is one of the instruction set. -/
theorem mem_opcodes_of_get? {byte : UInt8} {opcode : OpCode}
    (h : table.get? byte = some opcode) : opcode ∈ opcodes := by
  rcases OpCodeTable.mem_of_get?_extend h with hmem | hempty
  · exact hmem
  · rw [OpCodeTable.get?_empty] at hempty
    cases hempty

/-- A byte stands for the last opcode of the set that is written as it. -/
theorem opcode?_eq_find? (byte : UInt8) :
    dialect.opcode? byte = opcodes.reverse.find? fun opcode => opcode.byte == byte := by
  rw [opcode?_dialect, table, OpCodeTable.get?_extend, OpCodeTable.get?_empty, Option.or_none]

theorem opcode?_nop : dialect.opcode? 0x61 = some (entry 0x61 "NOP" "Does nothing.") := by
  rw [opcode?_eq_find?]
  decide +kernel

theorem opcode?_jmp : dialect.opcode? 0x62 = some (entry 0x62 "JMP"
    "Jumps by the signed 16-bit offset relative to this instruction." (.fixed 2)) := by
  rw [opcode?_eq_find?]
  decide +kernel

theorem opcode?_jmpif : dialect.opcode? 0x63 = some (entry 0x63 "JMPIF"
    "Jumps if the top stack item is true." (.fixed 2)) := by
  rw [opcode?_eq_find?]
  decide +kernel

theorem opcode?_call : dialect.opcode? 0x65 = some (entry 0x65 "CALL"
    "Calls the function at the signed 16-bit relative offset." (.fixed 2)) := by
  rw [opcode?_eq_find?]
  decide +kernel

theorem opcode?_syscall : dialect.opcode? 0x68 = some (entry 0x68 "SYSCALL"
    "Calls the interop service named by the argument." .varCounted) := by
  rw [opcode?_eq_find?]
  decide +kernel

/-! ## Distances -/

/-- The distance that two bytes stand for, the low one first: a number of
sixteen bits of which the top one counts negative. -/
def distance (low high : UInt8) : Int :=
  low.toNat + 256 * high.toNat - if high.toNat < 128 then 0 else 65536

/-- The reading of a payload of two bytes. -/
theorem signed_pair (low high : UInt8) :
    LittleEndian.signed [low, high] = distance low high := by
  have hlow : low.toNat < 256 := low.toNat_lt
  have hhigh : high.toNat < 256 := high.toNat_lt
  have hvalue : LittleEndian.value [low, high] = low.toNat + 256 * high.toNat := by
    simp [LittleEndian.value]
  rw [LittleEndian.signed, hvalue, distance, show 1 <<< (8 * [low, high].length) = 65536 from rfl,
    Int.bmod_def]
  split_ifs <;> omega

/-- A number that is an offset is found as that offset. -/
theorem offset?_eq_some_iff {n : Int} {target : UInt32} :
    offset? n = some target ↔ (target.toNat : Int) = n := by
  have hlt : target.toNat < UInt32.size := target.toNat_lt
  unfold offset?
  split_ifs with hrange
  · rw [Option.some.injEq]
    constructor
    · rintro rfl
      rw [UInt32.toNat_ofNat_of_lt' (by omega)]
      omega
    · rintro rfl
      simp
  · refine iff_of_false (by simp) ?_
    omega

theorem offset?_eq_none_iff {n : Int} : offset? n = none ↔ ¬(0 ≤ n ∧ n < UInt32.size) := by
  unfold offset?
  split_ifs with hrange
  · exact iff_of_false (by simp) (not_not.2 hrange)
  · exact iff_of_true rfl hrange

/-- The target of an instruction with a payload of two bytes. -/
theorem relativeTarget?_of_pair {instruction : Instruction} {low high : UInt8}
    (h : instruction.operand = some ⟨.fixed 2, [], [low, high]⟩) :
    relativeTarget? instruction = offset? (instruction.offset.toNat + distance low high) := by
  have hsigned : (Operand.mk (.fixed 2) [] [low, high]).signed 2 = .ok (distance low high) := by
    rw [← signed_pair]
    rfl
  rw [relativeTarget?, h, Option.bind_eq_bind, Option.bind_some, hsigned]
  rfl

/-! ## What the edges are -/

/-- A transfer of control by a distance: the name of the opcode, the beginning
of the comment, and the edge to a target. -/
structure RelativeTransfer where
  name : String
  verb : String
  edge : UInt32 → Jump

/-- The four of them. -/
def relativeTransfers : List RelativeTransfer :=
  [⟨"JMP", "Jump", fun target => .static target none⟩,
   ⟨"CALL", "Call", fun target => .static target none⟩,
   ⟨"JMPIF", "Jump [if]",
    fun target => .dynamic ⟨"neo", .conditional target true, .inactive⟩⟩,
   ⟨"JMPIFNOT", "Jump [ifnot]",
    fun target => .dynamic ⟨"neo", .conditional target false, .inactive⟩⟩]

/-- The instruction has neither jump nor comment. -/
def Plain (instruction : Instruction) : Prop :=
  instruction.jump = none ∧ instruction.comment = none

/-- The instruction transfers control to the offset that the number is, if it
is one, and goes on to the next instruction otherwise. -/
structure Leads (instruction : Instruction) (transfer : RelativeTransfer) (n : Int) : Prop where
  isSome_iff : instruction.jump.isSome ↔ 0 ≤ n ∧ n < UInt32.size
  edge_eq : ∀ target : UInt32, (target.toNat : Int) = n →
    instruction.jump.map Jump.edge = some (transfer.edge target) ∧
      instruction.comment = some (transfer.verb ++ " to 0x" ++ Hex.upperNumeral 4 target.toNat)
  plain : ¬(0 ≤ n ∧ n < UInt32.size) → Plain instruction

/-- **The edge of the instruction is that of its bytes.** -/
structure Edges (instruction : Instruction) : Prop where
  /-- A transfer by a distance has two bytes for it, and leads there from where
  it stands. -/
  relative : ∀ transfer ∈ relativeTransfers, instruction.opcode.name = transfer.name →
    ∃ low high, instruction.operand = some ⟨.fixed 2, [], [low, high]⟩ ∧
      Leads instruction transfer (instruction.offset.toNat + distance low high)
  /-- A return goes back to the caller, without a comment. -/
  toCaller : instruction.opcode.name = "RET" →
    instruction.jump = some (.dynamic ⟨"neo", .toCaller, .inactive⟩) ∧
      instruction.comment = none
  /-- No other instruction transfers control. -/
  plain : instruction.opcode.name ≠ "RET" →
    (∀ transfer ∈ relativeTransfers, instruction.opcode.name ≠ transfer.name) →
    Plain instruction

/-! ## What the instruction set says -/

/-- The names of the opcodes that transfer control stand for their bytes, and
those that do so by a distance have two bytes for it. -/
theorem transfer_of_name : ∀ opcode ∈ opcodes,
    (opcode.name = "JMP" → Transfer.ofByte? opcode.byte = some .jump ∧ opcode.shape = .fixed 2) ∧
    (opcode.name = "CALL" → Transfer.ofByte? opcode.byte = some .call ∧ opcode.shape = .fixed 2) ∧
    (opcode.name = "JMPIF" →
      Transfer.ofByte? opcode.byte = some (.branch true) ∧ opcode.shape = .fixed 2) ∧
    (opcode.name = "JMPIFNOT" →
      Transfer.ofByte? opcode.byte = some (.branch false) ∧ opcode.shape = .fixed 2) ∧
    (opcode.name = "RET" → Transfer.ofByte? opcode.byte = some .toCaller) ∧
    (opcode.name ∉ ["JMP", "CALL", "JMPIF", "JMPIFNOT", "RET"] →
      Transfer.ofByte? opcode.byte = none) := by
  decide +kernel

/-- A payload of two bytes is a low byte and a high one. -/
theorem exists_pair_of_fits {instruction : Instruction}
    (hfits : instruction.opcode.shape.Fits instruction.operand)
    (hshape : instruction.opcode.shape = .fixed 2) :
    ∃ low high, instruction.operand = some ⟨.fixed 2, [], [low, high]⟩ := by
  rw [hshape] at hfits
  cases hoperand : instruction.operand with
  | none =>
    rw [hoperand] at hfits
    cases hfits
  | some operand =>
    rw [hoperand] at hfits
    obtain ⟨shape, field, payload⟩ := operand
    obtain ⟨rfl, hformed⟩ : shape = .fixed 2 ∧ Operand.WellFormed _ := hfits
    obtain ⟨rfl, hlength⟩ : field = [] ∧ payload.length = 2 := hformed
    obtain ⟨low, high, rfl⟩ := List.length_eq_two.1 hlength
    exact ⟨low, high, rfl⟩

/-! ## From notes to edges -/

/-- The instruction has the comment and the edge of the note on it. -/
def Noted (instruction : Instruction) : Prop :=
  ∃ index, instruction.comment = (note? instruction index).bind (·.comment) ∧
    instruction.jump.map Jump.edge = (note? instruction index).map (·.jump.edge)

theorem Noted.plain {instruction : Instruction} (h : Noted instruction)
    (hnote : ∀ index, note? instruction index = none) : Plain instruction := by
  obtain ⟨index, hcomment, hjump⟩ := h
  rw [hnote] at hcomment hjump
  exact ⟨Option.map_eq_none_iff.1 hjump, hcomment⟩

/-- **A note on a target makes the instruction lead there.** -/
theorem Noted.exists_leads {instruction : Instruction} {transfer : RelativeTransfer}
    {note : OffsetIndex → UInt32 → JumpNote} (h : Noted instruction)
    (hfits : instruction.opcode.shape.Fits instruction.operand)
    (hshape : instruction.opcode.shape = .fixed 2)
    (hnote : ∀ index, note? instruction index = (relativeTarget? instruction).map (note index))
    (hedge : ∀ index target, (note index target).jump.edge = transfer.edge target)
    (htext : ∀ index target, (note index target).comment =
      some (transfer.verb ++ " to 0x" ++ Hex.upperNumeral 4 target.toNat)) :
    ∃ low high, instruction.operand = some ⟨.fixed 2, [], [low, high]⟩ ∧
      Leads instruction transfer (instruction.offset.toNat + distance low high) := by
  obtain ⟨low, high, hoperand⟩ := exists_pair_of_fits hfits hshape
  obtain ⟨index, hcomment, hjump⟩ := h
  rw [hnote, relativeTarget?_of_pair hoperand] at hcomment hjump
  refine ⟨low, high, hoperand, ?_⟩
  generalize (instruction.offset.toNat + distance low high : Int) = n at hcomment hjump ⊢
  cases htarget : offset? n with
  | none =>
    rw [htarget] at hcomment hjump
    have hnone : instruction.jump = none := Option.map_eq_none_iff.1 hjump
    have hrange := offset?_eq_none_iff.1 htarget
    refine ⟨iff_of_false (by simp [hnone]) hrange, ?_, fun _ => ⟨hnone, hcomment⟩⟩
    intro target hn
    rw [offset?_eq_some_iff.2 hn] at htarget
    cases htarget
  | some found =>
    rw [htarget] at hcomment hjump
    have hrange : 0 ≤ n ∧ n < UInt32.size := by
      by_contra hout
      rw [offset?_eq_none_iff.2 hout] at htarget
      cases htarget
    have hsome : instruction.jump.isSome := by
      rw [← Option.isSome_map, hjump]
      rfl
    refine ⟨iff_of_true hsome hrange, ?_, fun hout => absurd hrange hout⟩
    intro target hn
    obtain rfl : target = found :=
      Option.some.inj ((offset?_eq_some_iff.2 hn).symm.trans htarget)
    exact ⟨hjump.trans (congrArg some (hedge index target)), hcomment.trans (htext index target)⟩

/-- **No two targets have the same text** in a comment. -/
theorem targetText_injective : Function.Injective targetText := by
  intro target target' h
  have hdigits := (String.append_right_inj " to 0x").1 h
  exact UInt32.toNat_inj.1 (Hex.upperNumeral_injective 4 hdigits)

/-- A comment on a target, as one text. -/
theorem targetText_eq (verb : String) (target : UInt32) :
    verb ++ targetText target = verb ++ " to 0x" ++ Hex.upperNumeral 4 target.toNat :=
  (String.append_assoc ..).symm

/-- **An instruction of the instruction set, with an operand that fits and the
note on it, has the edge of its bytes.** -/
theorem Noted.edges {instruction : Instruction} (h : Noted instruction)
    (hop : instruction.opcode ∈ opcodes)
    (hfits : instruction.opcode.shape.Fits instruction.operand) : Edges instruction := by
  obtain ⟨hjmp, hcall, hjmpif, hjmpifnot, hret, hother⟩ := transfer_of_name _ hop
  refine ⟨?_, ?_, ?_⟩
  · intro transfer hmem hname
    simp only [relativeTransfers, List.mem_cons, List.not_mem_nil, or_false] at hmem
    rcases hmem with rfl | rfl | rfl | rfl
    · obtain ⟨hbyte, hshape⟩ := hjmp hname
      have hnote : ∀ index, note? instruction index =
          (relativeTarget? instruction).map (staticNote "Jump" · index) := by
        intro index
        rw [note?, hbyte]
      exact h.exists_leads hfits hshape hnote (fun _ _ => rfl)
        fun _ target => congrArg some (targetText_eq "Jump" target)
    · obtain ⟨hbyte, hshape⟩ := hcall hname
      have hnote : ∀ index, note? instruction index =
          (relativeTarget? instruction).map (staticNote "Call" · index) := by
        intro index
        rw [note?, hbyte]
      exact h.exists_leads hfits hshape hnote (fun _ _ => rfl)
        fun _ target => congrArg some (targetText_eq "Call" target)
    · obtain ⟨hbyte, hshape⟩ := hjmpif hname
      have hnote : ∀ index, note? instruction index =
          (relativeTarget? instruction).map (branchNote true) := by
        intro index
        rw [note?, hbyte]
      exact h.exists_leads hfits hshape hnote (fun _ _ => rfl)
        fun _ target => congrArg some (targetText_eq "Jump [if]" target)
    · obtain ⟨hbyte, hshape⟩ := hjmpifnot hname
      have hnote : ∀ index, note? instruction index =
          (relativeTarget? instruction).map (branchNote false) := by
        intro index
        rw [note?, hbyte]
      exact h.exists_leads hfits hshape hnote (fun _ _ => rfl)
        fun _ target => congrArg some (targetText_eq "Jump [ifnot]" target)
  · intro hname
    obtain ⟨index, hcomment, hjump⟩ := h
    rw [note?, hret hname] at hcomment hjump
    obtain ⟨jump, hsome, hedge⟩ := Option.map_eq_some_iff.1 hjump
    rw [hsome, Jump.edge_eq_dynamic.1 hedge]
    exact ⟨rfl, hcomment⟩
  · intro hret' hrelative
    refine h.plain fun index => ?_
    have hnot : instruction.opcode.name ∉ ["JMP", "CALL", "JMPIF", "JMPIFNOT", "RET"] := by
      simpa [relativeTransfers, and_assoc] using And.intro hrelative hret'
    rw [note?, hother hnot]

/-- The instructions of NEO code are of the instruction set, with operands that
fit. -/
theorem mem_opcodes_of_decode {settings : Settings} {code : Code} {d : Disassembly}
    (h : decode dialect settings code = .ok d) {instruction : Instruction}
    (hmem : instruction ∈ d.instructions) :
    instruction.opcode ∈ opcodes ∧ instruction.opcode.shape.Fits instruction.operand := by
  have hoperation : instruction.operation ∈
      (d.instructions.map Instruction.bare).map Instruction.operation := by
    rw [map_operation_bare]
    exact List.mem_map_of_mem hmem
  obtain ⟨hop, hfits⟩ :=
    (cuts_of_decode h).wellFormed opcode?_dialect coherent_table _ hoperation
  exact ⟨mem_opcodes_of_get? hop, hfits⟩

/-- The instruction at a place of NEO code has the edge of its bytes, if jumps
are commented on. -/
theorem edges_of_get? {settings : Settings} (hannotate : settings.annotateJumps = true)
    {code : Code} {d : Disassembly} (h : decode dialect settings code = .ok d) {place : Nat}
    {instruction : Instruction} (hget : d.get? place = some instruction) : Edges instruction := by
  obtain ⟨index, hcomment, hjump⟩ := exists_note_of_decode h hget
  rw [Settings.commentOf, if_pos hannotate] at hcomment
  obtain ⟨hop, hfits⟩ := mem_opcodes_of_decode h (List.mem_of_getElem? hget)
  have hnoted : Noted instruction := ⟨index, hcomment, hjump⟩
  exact hnoted.edges hop hfits

/-- **The edges of NEO code are those of its bytes**, and its comments tell
them. -/
theorem edges_of_decode {settings : Settings} (hannotate : settings.annotateJumps = true)
    {code : Code} {d : Disassembly} (h : decode dialect settings code = .ok d) :
    ∀ instruction ∈ d.instructions, Edges instruction := by
  intro instruction hmem
  obtain ⟨place, hget⟩ := List.getElem?_of_mem hmem
  exact edges_of_get? hannotate h hget

/-- At offset 1 a jump by -1 leads to the start, at offset 4 a branch by -16
leads nowhere, and at offset 7 a call by 2741 leads beyond the end. -/
theorem edges_of_decode_backward :
    ∃ d, decode dialect {} #[0x61, 0x62, 0xff, 0xff, 0x63, 0xf0, 0xff, 0x65, 0xb5, 0x0a] = .ok d ∧
      d.HasStatic 1 0 (some 0) ∧ (d.get? 1).bind (·.comment) = some "Jump to 0x0000" ∧
      (d.get? 2).map (·.jump) = some none ∧
      d.HasStatic 3 0xabc none ∧ (d.get? 3).bind (·.comment) = some "Call to 0x0ABC" ∧
      ∀ instruction ∈ d.instructions, Edges instruction := by
  have hlast : Cuts dialect {} 7 3 [0x65, 0xb5, 0x0a] _ :=
    @Cuts.single _ _ 7 3 0x65 _ (some ⟨.fixed 2, [], [0xb5, 0x0a]⟩) rfl opcode?_call (by decide)
  have hthird : Cuts dialect {} 4 2 [0x63, 0xf0, 0xff, 0x65, 0xb5, 0x0a] _ :=
    @Cuts.cons _ _ 4 2 0x63 _ (some ⟨.fixed 2, [], [0xf0, 0xff]⟩) _ _ rfl opcode?_jmpif
      (by decide) hlast
  have hsecond : Cuts dialect {} 1 1 [0x62, 0xff, 0xff, 0x63, 0xf0, 0xff, 0x65, 0xb5, 0x0a] _ :=
    @Cuts.cons _ _ 1 1 0x62 _ (some ⟨.fixed 2, [], [0xff, 0xff]⟩) _ _ rfl opcode?_jmp
      (by decide) hthird
  have hcuts : Cuts dialect {} 0 0
      [0x61, 0x62, 0xff, 0xff, 0x63, 0xf0, 0xff, 0x65, 0xb5, 0x0a] _ :=
    @Cuts.cons _ _ 0 0 0x61 _ none _ _ rfl opcode?_nop (by decide) hsecond
  have hd : decode dialect {}
      #[0x61, 0x62, 0xff, 0xff, 0x63, 0xf0, 0xff, 0x65, 0xb5, 0x0a] = .ok _ :=
    decode_of_cuts (by decide) hcuts
  exact ⟨_, hd, by decide +kernel, by decide +kernel, by decide +kernel, by decide +kernel,
    by decide +kernel, edges_of_decode rfl hd⟩

end Neo

end Disasm
