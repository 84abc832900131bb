import Disasm.Proofs.Concatenation
import Disasm.Proofs.NeoEdges
import Disasm.Proofs.Tiling
import Mathlib.Data.List.Nodup
/-!
# NEO jumps when code is put together

A NEO jump counts its distance from where it stands, so it moves with its code.
Behind other code a jump leads as far as before to the same instruction, and
the place of that instruction goes up by the number of instructions before it.
Two kinds of jump notice the seam: one that led beyond the end of the first
part may now find an instruction of the second, and one that led to before the
start of the second part, and so was none, may now lead into the first.

`Joins` is what putting code together comes to for any dialect: the starts of
the whole are those of the first part and, further on, those of the second
(`Joins.startOf?_eq_some_iff`). `Edges.at_two_offsets` compares the edges of one
instruction at two offsets, and `Disassembly.Resolved` says which places
static jumps know. The account of the jumps of a whole is `jumps_relocate`.
-/

namespace Disasm

/-! ## Disassemblies put together -/

/-- **The whole is the first disassembly and then the second**, which has moved
by `shift` bytes, and the first ends before it. -/
structure Joins (first second whole : Disassembly) (shift : Nat) : Prop where
  placed_eq : whole.instructions.map Instruction.placed =
    first.instructions.map Instruction.placed ++
      (second.instructions.map Instruction.placed).map (·.behind first.size shift)
  lt_shift : ∀ {place start}, first.startOf? place = some start → start.toNat < shift

variable {settings : Settings} {code : Code}
variable {d first second whole : Disassembly} {shift place : Nat}

/-- The disassemblies of two codes join to that of both, if the number of
instructions is not limited. -/
theorem exists_joins_of_decode {dialect : Dialect} (hlimit : settings.maxInstructions = none)
    {left right : Code} (hsize : left.size + right.size < UInt32.size)
    (hleft : decode dialect settings left = .ok first)
    (hright : decode dialect settings right = .ok second) :
    ∃ whole, decode dialect settings (left ++ right) = .ok whole ∧
      Joins first second whole left.size := by
  have hstart : ∀ {place start}, first.startOf? place = some start →
      start.toNat < left.size := by
    intro place start h
    obtain ⟨instruction, hget, rfl⟩ := Option.map_eq_some_iff.1 h
    obtain ⟨front, byte, back, hbytes, -, -, hoffset, -⟩ := place_of_decode hleft hget
    have hlen := Code.size_of_append hbytes
    rw [List.cons_append, List.length_cons] at hlen
    omega
  have hlength : left.toList.length = left.size := Array.length_toList
  obtain ⟨-, instructions, hcuts, rfl⟩ := decode_eq_ok_iff.1 hleft
  obtain ⟨-, others, hothers, rfl⟩ := decode_eq_ok_iff.1 hright
  obtain ⟨moved, hmoved, hplaced⟩ := hcuts.exists_append hlimit hothers hsize.le
  rw [← Array.toList_append] at hmoved
  refine ⟨_, decode_of_cuts (by rwa [Array.size_append]) hmoved, ?_, hstart⟩
  rw [map_placed_finish, map_placed_finish, map_placed_finish, List.map_append, hplaced,
    size_finish, hlength]

/-- What stands at a place, without its jump and comment. -/
theorem placed_get? (d : Disassembly) (place : Nat) :
    (d.get? place).map Instruction.placed = (d.instructions.map Instruction.placed)[place]? :=
  List.getElem?_map.symm

/-- An instruction starts where it is placed. -/
theorem startOf?_eq_some_iff {start : UInt32} :
    d.startOf? place = some start ↔
      ∃ placed, (d.get? place).map Instruction.placed = some placed ∧
        placed.offset = start.toNat := by
  rw [Disassembly.startOf?]
  cases hget : d.get? place with
  | none => simp
  | some instruction => simp [Instruction.placed, UInt32.toNat_inj]

namespace Joins

theorem size_eq (h : Joins first second whole shift) :
    whole.size = first.size + second.size := by
  have hlen := congrArg List.length h.placed_eq
  simpa [Disassembly.size] using hlen

/-- The instructions of the first part stand where they stood. -/
theorem placed_left (h : Joins first second whole shift) (hlt : place < first.size) :
    (whole.get? place).map Instruction.placed = (first.get? place).map Instruction.placed := by
  rw [placed_get?, h.placed_eq, placed_get?]
  exact List.getElem?_append_left (by rwa [List.length_map])

/-- Those of the second stand behind them. -/
theorem placed_right (h : Joins first second whole shift) (place : Nat) :
    (whole.get? (first.size + place)).map Instruction.placed =
      ((second.get? place).map Instruction.placed).map (·.behind first.size shift) := by
  have hlen : (first.instructions.map Instruction.placed).length = first.size := by
    rw [List.length_map]
    rfl
  rw [placed_get?, h.placed_eq, placed_get?, List.getElem?_append_right (by omega), hlen,
    Nat.add_sub_cancel_left, List.getElem?_map]

theorem exists_kept (h : Joins first second whole shift) {instruction : Instruction}
    (hget : first.get? place = some instruction) :
    ∃ kept, whole.get? place = some kept ∧ kept.placed = instruction.placed := by
  have hplaced := h.placed_left (List.getElem?_eq_some_iff.1 hget).1
  rw [hget] at hplaced
  exact Option.map_eq_some_iff.1 hplaced

theorem exists_moved (h : Joins first second whole shift) {instruction : Instruction}
    (hget : second.get? place = some instruction) :
    ∃ moved, whole.get? (first.size + place) = some moved ∧
      moved.placed = instruction.placed.behind first.size shift := by
  have hplaced := h.placed_right place
  rw [hget] at hplaced
  exact Option.map_eq_some_iff.1 hplaced

/-- **The starts of the whole** are those of the first part and those of the
second, further on. -/
theorem startOf?_eq_some_iff (h : Joins first second whole shift) {start : UInt32} :
    whole.startOf? place = some start ↔
      first.startOf? place = some start ∨
        ∃ k before, place = first.size + k ∧ second.startOf? k = some before ∧
          start.toNat = shift + before.toNat := by
  rcases Nat.lt_or_ge place first.size with hlt | hge
  · have hsame : whole.startOf? place = some start ↔ first.startOf? place = some start := by
      rw [Disasm.startOf?_eq_some_iff, h.placed_left hlt, ← Disasm.startOf?_eq_some_iff]
    rw [hsame]
    refine ⟨.inl, ?_⟩
    rintro (hfirst | ⟨k, before, hplace, -⟩)
    · exact hfirst
    · omega
  · obtain ⟨k, rfl⟩ : ∃ k, place = first.size + k := ⟨place - first.size, by omega⟩
    have hnone : first.get? (first.size + k) = none :=
      List.getElem?_eq_none (Nat.le_add_right _ _)
    rw [Disasm.startOf?_eq_some_iff, h.placed_right, Disassembly.startOf?, hnone]
    constructor
    · rintro ⟨placed, hplaced, hoffset⟩
      obtain ⟨before, hbefore, rfl⟩ := Option.map_eq_some_iff.1 hplaced
      obtain ⟨instruction, hget, rfl⟩ := Option.map_eq_some_iff.1 hbefore
      refine .inr ⟨k, instruction.offset, rfl, by rw [Disassembly.startOf?, hget]; rfl, ?_⟩
      rw [← hoffset, Nat.add_comm]
      rfl
    · rintro (hcontra | ⟨k', before, hplace, hbefore, hstart⟩)
      · cases hcontra
      · obtain rfl : k = k' := by omega
        obtain ⟨instruction, hget, rfl⟩ := Option.map_eq_some_iff.1 hbefore
        refine ⟨_, by rw [hget]; rfl, ?_⟩
        rw [hstart, Nat.add_comm]
        rfl

/-- A start in the second part comes after all those of the first. -/
theorem startOf?_iff_of_lt (h : Joins first second whole shift) {start : UInt32}
    (hlt : start.toNat < shift) :
    whole.startOf? place = some start ↔ first.startOf? place = some start := by
  rw [h.startOf?_eq_some_iff]
  refine ⟨?_, .inl⟩
  rintro (hfirst | ⟨k, before, -, -, hstart⟩)
  · exact hfirst
  · omega

/-- And one that is not before the seam is in the second part. -/
theorem startOf?_iff_of_eq (h : Joins first second whole shift) {before start : UInt32}
    (hstart : start.toNat = shift + before.toNat) :
    whole.startOf? place = some start ↔
      ∃ k, place = first.size + k ∧ second.startOf? k = some before := by
  rw [h.startOf?_eq_some_iff]
  constructor
  · rintro (hfirst | ⟨k, other, hplace, hother, hsum⟩)
    · have hlt := h.lt_shift hfirst
      omega
    · obtain rfl : other = before := UInt32.toNat_inj.1 (by omega)
      exact ⟨k, hplace, hother⟩
  · rintro ⟨k, hplace, hbefore⟩
    exact .inr ⟨k, before, hplace, hbefore, hstart⟩

end Joins

/-! ## The places that static jumps know -/

/-- Every static jump knows a place exactly if an instruction starts at its
target. -/
def Disassembly.Resolved (d : Disassembly) : Prop :=
  ∀ {place target known}, d.HasStatic place target known →
    ∀ other, known = some other ↔ d.startOf? other = some target

/-- What a resolved disassembly knows of the static jump of an instruction. -/
theorem Disassembly.Resolved.known_eq_some_iff (h : d.Resolved) {instruction : Instruction}
    {target : UInt32} {known : Option Nat} (hget : d.get? place = some instruction)
    (hjump : instruction.jump = some (.static target known)) (other : Nat) :
    known = some other ↔ d.startOf? other = some target := by
  have hhas : d.HasStatic place target known := by
    rw [HasStatic, hget]
    exact hjump
  exact h hhas other

/-- Decoding resolves the jumps of a dialect that looks its targets up, if
forward jumps are filled in. -/
theorem resolved_of_decode {dialect : Dialect} (hdialect : dialect.LooksUpTargets)
    (hforward : settings.resolveForwardJumps = true)
    (h : decode dialect settings code = .ok d) : d.Resolved := by
  obtain ⟨hcode, instructions, hcuts, rfl⟩ := decode_eq_ok_iff.1 h
  have hback := hcuts.resolvedBack_link hdialect hcode.le
  intro place target known hstatic
  rw [finish, if_pos hforward] at hstatic ⊢
  exact hback.known_eq_some_iff_of_resolvePendingJumps hstatic

/-! ## Moving a jump -/

/-- The offset `shift` bytes further on, if there is such an offset. -/
def offsetBehind? (offset : UInt32) (shift : Nat) : Option UInt32 :=
  if offset.toNat + shift < UInt32.size then some (UInt32.ofNat (offset.toNat + shift)) else none

theorem offsetBehind?_of_eq {offset moved : UInt32} (h : moved.toNat = offset.toNat + shift) :
    offsetBehind? offset shift = some moved := by
  have hlt : moved.toNat < UInt32.size := moved.toNat_lt
  rw [offsetBehind?, if_pos (by omega), ← h, UInt32.ofNat_toNat]

theorem offsetBehind?_of_le {offset : UInt32} (h : UInt32.size ≤ offset.toNat + shift) :
    offsetBehind? offset shift = none :=
  if_neg (by omega)

/-- The jump behind `places` instructions more, which take `shift` bytes: its
target has moved with it, and so has the place of the target. If the target
runs out of range no jump is left. -/
def Jump.behind (places shift : Nat) : Jump → Option Jump
  | .static target known =>
    (offsetBehind? target shift).map fun moved => .static moved (known.map (places + ·))
  | .dynamic ⟨dialect, .conditional target takenWhen, emphasis⟩ =>
    (offsetBehind? target shift).map fun moved =>
      .dynamic ⟨dialect, .conditional moved takenWhen, emphasis⟩
  | .dynamic ⟨dialect, .toCaller, emphasis⟩ => some (.dynamic ⟨dialect, .toCaller, emphasis⟩)

/-- A jump whose edge is static is static. -/
theorem Jump.edge_eq_static {jump : Jump} {target : UInt32} :
    jump.edge = .static target none ↔ ∃ known, jump = .static target known := by
  cases jump <;> simp [edge]

namespace Neo

variable {instruction moved other : Instruction} {transfer : RelativeTransfer} {n : Int}
variable {target : UInt32}

/-! ## One instruction at two offsets -/

/-- **The instruction aims at a number**: it transfers control by a distance,
which leads from where it stands to the offset that the number is, if it is
one. -/
structure AimsAt (instruction : Instruction) (transfer : RelativeTransfer) (n : Int) : Prop where
  mem : transfer ∈ relativeTransfers
  name_eq : instruction.opcode.name = transfer.name
  target_eq : ∃ low high, instruction.operand = some ⟨.fixed 2, [], [low, high]⟩ ∧
    n = instruction.offset.toNat + distance low high

/-- An instruction aims at one number, in one way. -/
theorem AimsAt.unique {transfer' : RelativeTransfer} {n' : Int} (h : AimsAt instruction transfer n)
    (h' : AimsAt instruction transfer' n') : transfer = transfer' ∧ n = n' := by
  have hnames : (relativeTransfers.map RelativeTransfer.name).Nodup := by decide
  obtain ⟨low, high, hpair, rfl⟩ := h.target_eq
  obtain ⟨low', high', hpair', rfl⟩ := h'.target_eq
  rw [hpair] at hpair'
  obtain ⟨rfl, rfl⟩ : low = low' ∧ high = high' := by simpa using hpair'
  exact ⟨List.inj_on_of_nodup_map hnames h.mem h'.mem (h.name_eq.symm.trans h'.name_eq), rfl⟩

/-- The edge of a return. -/
def returnEdge : Jump :=
  .dynamic ⟨"neo", .toCaller, .inactive⟩

/-- A transfer by a distance has a static edge or a conditional one. -/
theorem edge_of_mem (h : transfer ∈ relativeTransfers) :
    (∀ target, transfer.edge target = .static target none) ∨
      ∃ takenWhen, ∀ target,
        transfer.edge target = .dynamic ⟨"neo", .conditional target takenWhen, .inactive⟩ := by
  simp only [relativeTransfers, List.mem_cons, List.not_mem_nil, or_false] at h
  rcases h with rfl | rfl | rfl | rfl
  · exact .inl fun _ => rfl
  · exact .inl fun _ => rfl
  · exact .inr ⟨true, fun _ => rfl⟩
  · exact .inr ⟨false, fun _ => rfl⟩

/-- The edge of an instruction that leads to a number is that to a target. -/
theorem Leads.exists_target (h : Leads instruction transfer n) {jump : Jump}
    (hjump : instruction.jump = some jump) :
    ∃ target : UInt32, (target.toNat : Int) = n ∧ jump.edge = transfer.edge target := by
  have hrange : 0 ≤ n ∧ n < UInt32.size := h.isSome_iff.1 (by rw [hjump]; rfl)
  have htarget : ((UInt32.ofNat n.toNat).toNat : Int) = n := by
    rw [UInt32.toNat_ofNat_of_lt' (by omega)]
    omega
  have hedge := (h.edge_eq _ htarget).1
  rw [hjump] at hedge
  exact ⟨_, htarget, Option.some.inj hedge⟩

/-- And a target that the number is has that edge. -/
theorem Leads.exists_jump (h : Leads instruction transfer n) (htarget : (target.toNat : Int) = n) :
    ∃ jump, instruction.jump = some jump ∧ jump.edge = transfer.edge target :=
  Option.map_eq_some_iff.1 (h.edge_eq target htarget).1

/-- Two instructions that lead to one number have one edge. -/
theorem Leads.edge_congr (h : Leads instruction transfer n) (hother : Leads other transfer n) :
    other.jump.map Jump.edge = instruction.jump.map Jump.edge := by
  cases hjump : instruction.jump with
  | none =>
    have hrange : ¬(0 ≤ n ∧ n < UInt32.size) := by
      rw [← h.isSome_iff, hjump]
      simp
    rw [(hother.plain hrange).1]
  | some jump =>
    obtain ⟨target, htarget, hedge⟩ := h.exists_target hjump
    rw [(hother.edge_eq target htarget).1, Option.map_some, hedge]

/-- **What an instruction does at two offsets.** It aims at two numbers that lie
as far apart as the offsets, or it does the same at both: it goes back to the
caller or on to the next instruction. -/
theorem Edges.at_two_offsets {shift : Nat} (h : Edges instruction) (hmoved : Edges moved)
    (hsame : moved.operation = instruction.operation)
    (hoffset : moved.offset.toNat = instruction.offset.toNat + shift) :
    (∃ transfer n, AimsAt instruction transfer n ∧ Leads instruction transfer n ∧
      Leads moved transfer (n + shift)) ∨
    ((∀ transfer n, ¬ AimsAt instruction transfer n) ∧ moved.jump = instruction.jump ∧
      ∀ jump, instruction.jump = some jump → jump = returnEdge) := by
  obtain ⟨hopcode, hoperand⟩ := Operation.mk.inj hsame
  by_cases hrelative : ∃ transfer ∈ relativeTransfers, instruction.opcode.name = transfer.name
  · obtain ⟨transfer, hmem, hname⟩ := hrelative
    obtain ⟨low, high, hpair, hleads⟩ := h.relative transfer hmem hname
    obtain ⟨low', high', hpair', hleads'⟩ :=
      hmoved.relative transfer hmem (by rw [hopcode]; exact hname)
    -- the operand is the same one, so the distance is
    rw [hoperand, hpair] at hpair'
    obtain ⟨rfl, rfl⟩ : low = low' ∧ high = high' := by simpa using hpair'
    rw [hoffset] at hleads'
    refine .inl ⟨transfer, _, ⟨hmem, hname, low, high, hpair, rfl⟩, hleads, ?_⟩
    rwa [show (instruction.offset.toNat : Int) + distance low high + shift =
      ((instruction.offset.toNat + shift : Nat) : Int) + distance low high by push_cast; omega]
  · have hnone : ∀ transfer ∈ relativeTransfers, instruction.opcode.name ≠ transfer.name :=
      fun transfer hmem hname => hrelative ⟨transfer, hmem, hname⟩
    refine .inr ⟨fun transfer n haims => hnone transfer haims.mem haims.name_eq, ?_⟩
    by_cases hret : instruction.opcode.name = "RET"
    · have hjump := (h.toCaller hret).1
      have hjump' := (hmoved.toCaller (by rw [hopcode]; exact hret)).1
      refine ⟨hjump'.trans hjump.symm, fun jump hsome => ?_⟩
      exact (Option.some.inj (hjump.symm.trans hsome)).symm
    · have hjump := (h.plain hret hnone).1
      have hjump' := (hmoved.plain (by rw [hopcode]; exact hret) (by rwa [hopcode])).1
      refine ⟨hjump'.trans hjump.symm, fun jump hsome => ?_⟩
      cases hjump.symm.trans hsome

/-! ## What becomes of a jump -/

/-- **A jump of the first part, in the whole.** It is the same edge. The place
of a static target stays known if it was, and becomes known exactly if an
instruction of the second part starts at the target. -/
structure KeepsJump (first second : Disassembly) (shift : Nat) (jump kept : Option Jump) :
    Prop where
  edge_eq : kept.map Jump.edge = jump.map Jump.edge
  of_known : ∀ target place, jump = some (.static target (some place)) →
    kept = some (.static target (some place))
  of_unknown : ∀ target, jump = some (.static target none) →
    ∃ known, kept = some (.static target known) ∧ ∀ place, known = some place ↔
      ∃ k start, place = first.size + k ∧ second.startOf? k = some start ∧
        target.toNat = shift + start.toNat

/-- **A jump of the second part, in the whole.** -/
structure MovesJump (first : Disassembly) (shift : Nat) (instruction moved : Instruction) :
    Prop where
  /-- A jump has moved by the first part, with its target. -/
  of_some : ∀ jump, instruction.jump = some jump → moved.jump = jump.behind first.size shift
  /-- What led to before the start was no jump. It is one if the start is now far
  enough on, and knows a place if an instruction of the first part starts
  there. -/
  of_neg : ∀ transfer n, AimsAt instruction transfer n → n < 0 →
    instruction.jump = none ∧ (moved.jump.isSome ↔ 0 ≤ shift + n) ∧
      ∀ target : UInt32, (target.toNat : Int) = shift + n →
        moved.jump.map Jump.edge = some (transfer.edge target) ∧
          ∀ known, moved.jump = some (.static target known) →
            ∀ place, known = some place ↔ first.startOf? place = some target
  /-- What is no jump for another reason is none. -/
  of_none : instruction.jump = none → (∀ transfer n, AimsAt instruction transfer n → 0 ≤ n) →
    moved.jump = none

/-- The jumps of the first part are kept. -/
theorem keepsJump_of_joins {kept : Instruction} (hjoins : Joins first second whole shift)
    (hfirst : first.Resolved) (hwhole : whole.Resolved)
    (hget : first.get? place = some instruction) (hkept : whole.get? place = some kept)
    (hplaced : kept.placed = instruction.placed) (h : Edges instruction) (h' : Edges kept) :
    KeepsJump first second shift instruction.jump kept.jump := by
  obtain ⟨-, hoffset, hsame⟩ := Placed.mk.inj hplaced
  have hedge : kept.jump.map Jump.edge = instruction.jump.map Jump.edge := by
    obtain ⟨transfer, n, -, hleads, hleads'⟩ | ⟨-, hjump, -⟩ :=
      h.at_two_offsets h' hsame (show _ = _ + 0 from hoffset)
    · rw [Nat.cast_zero, add_zero] at hleads'
      exact hleads.edge_congr hleads'
    · rw [hjump]
  -- a static jump is a static jump to the same target, and both know what starts there
  have hstatic : ∀ target known, instruction.jump = some (.static target known) →
      (∀ k, known = some k ↔ first.startOf? k = some target) ∧
        ∃ known', kept.jump = some (.static target known') ∧
          ∀ k, known' = some k ↔ whole.startOf? k = some target := by
    intro target known hjump
    rw [hjump] at hedge
    obtain ⟨jump, hjump', hedge'⟩ := Option.map_eq_some_iff.1 hedge
    obtain ⟨known', rfl⟩ := Jump.edge_eq_static.1 hedge'
    exact ⟨hfirst.known_eq_some_iff hget hjump, known', hjump',
      hwhole.known_eq_some_iff hkept hjump'⟩
  refine ⟨hedge, ?_, ?_⟩
  · intro target k hjump
    obtain ⟨hknown, known', hjump', hknown'⟩ := hstatic target _ hjump
    have hstart : whole.startOf? k = some target :=
      hjoins.startOf?_eq_some_iff.2 (.inl ((hknown k).1 rfl))
    rw [hjump', (hknown' k).2 hstart]
  · intro target hjump
    obtain ⟨hknown, known', hjump', hknown'⟩ := hstatic target _ hjump
    refine ⟨known', hjump', fun k => ?_⟩
    rw [hknown', hjoins.startOf?_eq_some_iff, or_iff_right]
    intro hstart
    cases (hknown k).2 hstart

/-- The place of a static target moves with the target. -/
theorem known_of_joins (hjoins : Joins first second whole shift) {target target' : UInt32}
    {known known' : Option Nat} (htarget : target'.toNat = shift + target.toNat)
    (hknown : ∀ k, known = some k ↔ second.startOf? k = some target)
    (hknown' : ∀ k, known' = some k ↔ whole.startOf? k = some target') :
    known' = known.map (first.size + ·) := by
  refine Option.ext fun other => ?_
  rw [hknown', hjoins.startOf?_iff_of_eq htarget, Option.map_eq_some_iff]
  constructor
  · rintro ⟨j, hother, hstart⟩
    exact ⟨j, (hknown j).2 hstart, hother.symm⟩
  · rintro ⟨j, hj, hother⟩
    exact ⟨j, hother.symm, (hknown j).1 hj⟩

/-- A jump of the second part moves. -/
theorem jump_of_joins (hjoins : Joins first second whole shift) (hsecond : second.Resolved)
    (hwhole : whole.Resolved) (hget : second.get? place = some instruction)
    (hmoved : whole.get? (first.size + place) = some moved)
    (hmem : transfer ∈ relativeTransfers) (h : Leads instruction transfer n)
    (h' : Leads moved transfer (n + shift)) {jump : Jump} (hjump : instruction.jump = some jump) :
    moved.jump = jump.behind first.size shift := by
  obtain ⟨target, htarget, hedge⟩ := h.exists_target hjump
  rcases Nat.lt_or_ge (target.toNat + shift) UInt32.size with hlt | hge
  · obtain ⟨target', htarget'⟩ : ∃ target' : UInt32, target'.toNat = target.toNat + shift :=
      ⟨_, UInt32.toNat_ofNat_of_lt' hlt⟩
    have hbehind := offsetBehind?_of_eq htarget'
    obtain ⟨jump', hjump', hedge'⟩ := h'.exists_jump (show (target'.toNat : Int) = _ by omega)
    rcases edge_of_mem hmem with hkind | ⟨takenWhen, hkind⟩
    · rw [hkind] at hedge hedge'
      obtain ⟨known, rfl⟩ := Jump.edge_eq_static.1 hedge
      obtain ⟨known', rfl⟩ := Jump.edge_eq_static.1 hedge'
      have hknown := known_of_joins hjoins (by omega) (hsecond.known_eq_some_iff hget hjump)
        (hwhole.known_eq_some_iff hmoved hjump')
      rw [hjump', Jump.behind, hbehind, Option.map_some, hknown]
    · rw [hkind, Jump.edge_eq_dynamic] at hedge hedge'
      rw [hjump', hedge, hedge', Jump.behind, hbehind, Option.map_some]
  · have hrange : ¬(0 ≤ n + shift ∧ n + shift < UInt32.size) := by omega
    have hbehind := offsetBehind?_of_le hge
    rw [(h'.plain hrange).1]
    rcases edge_of_mem hmem with hkind | ⟨takenWhen, hkind⟩
    · rw [hkind] at hedge
      obtain ⟨known, rfl⟩ := Jump.edge_eq_static.1 hedge
      rw [Jump.behind, hbehind, Option.map_none]
    · rw [hkind, Jump.edge_eq_dynamic] at hedge
      rw [hedge, Jump.behind, hbehind, Option.map_none]

/-- The jumps of the second part move. -/
theorem movesJump_of_joins (hjoins : Joins first second whole shift) (hshift : shift < UInt32.size)
    (hsecond : second.Resolved) (hwhole : whole.Resolved)
    (hget : second.get? place = some instruction)
    (hmoved : whole.get? (first.size + place) = some moved)
    (hplaced : moved.placed = instruction.placed.behind first.size shift)
    (h : Edges instruction) (h' : Edges moved) : MovesJump first shift instruction moved := by
  obtain ⟨-, hoffset, hsame⟩ := Placed.mk.inj hplaced
  obtain ⟨transfer, n, haims, hleads, hleads'⟩ | ⟨hnone, hjump, hreturn⟩ :=
    h.at_two_offsets h' hsame hoffset
  · refine ⟨fun jump => jump_of_joins hjoins hsecond hwhole hget hmoved haims.mem hleads hleads',
      ?_, ?_⟩
    · intro other m hother hneg
      obtain ⟨rfl, rfl⟩ := haims.unique hother
      have hout : ¬(0 ≤ n ∧ n < UInt32.size) := by omega
      refine ⟨(hleads.plain hout).1, ?_, ?_⟩
      · rw [hleads'.isSome_iff]
        omega
      · intro target htarget
        refine ⟨(hleads'.edge_eq target (by omega)).1, fun known hknown k => ?_⟩
        rw [hwhole.known_eq_some_iff hmoved hknown, hjoins.startOf?_iff_of_lt (by omega)]
    · intro hjump hpos
      have hn := hpos transfer n haims
      have hout : ¬(0 ≤ n ∧ n < UInt32.size) := by
        rw [← hleads.isSome_iff, hjump]
        simp
      exact (hleads'.plain (by omega)).1
  · refine ⟨?_, fun other m hother => absurd hother (hnone other m), fun hnone' _ => ?_⟩
    · intro jump hsome
      rw [hjump, hsome, hreturn jump hsome]
      rfl
    · rw [hjump, hnone']

/-- **NEO jumps relocate with their code.** Two codes that can be decoded can be
decoded together. The instructions of the first part stand where they stood
and keep their jumps; a static target of which no place was known gets one if
an instruction of the second part starts there. The instructions of the second
part stand behind, and so do their jumps: target and place have moved by the
first part, and a jump whose target runs out of range is gone. An instruction
that led to before the start of the second part has a jump if its target is
now in the code before, with a place if an instruction of the first part
starts there; and no other instruction gets a jump. -/
theorem jumps_relocate {left right : Code} {first second : Disassembly}
    (hsize : left.size + right.size < UInt32.size)
    (hleft : decode dialect {} left = .ok first) (hright : decode dialect {} right = .ok second) :
    ∃ whole, decode dialect {} (left ++ right) = .ok whole ∧
      whole.size = first.size + second.size ∧
      (∀ place instruction, first.get? place = some instruction →
        ∃ kept, whole.get? place = some kept ∧ kept.placed = instruction.placed ∧
          KeepsJump first second left.size instruction.jump kept.jump) ∧
      ∀ place instruction, second.get? place = some instruction →
        ∃ moved, whole.get? (first.size + place) = some moved ∧
          moved.placed = instruction.placed.behind first.size left.size ∧
          MovesJump first left.size instruction moved := by
  obtain ⟨whole, hwhole, hjoins⟩ := exists_joins_of_decode rfl hsize hleft hright
  have hresolved : ∀ {code d}, decode dialect {} code = .ok d → d.Resolved :=
    fun h => resolved_of_decode looksUpTargets_dialect rfl h
  refine ⟨whole, hwhole, hjoins.size_eq, ?_, ?_⟩
  · intro place instruction hget
    obtain ⟨kept, hkept, hplaced⟩ := hjoins.exists_kept hget
    refine ⟨kept, hkept, hplaced, ?_⟩
    exact keepsJump_of_joins hjoins (hresolved hleft) (hresolved hwhole) hget hkept hplaced
      (edges_of_get? rfl hleft hget) (edges_of_get? rfl hwhole hkept)
  · intro place instruction hget
    obtain ⟨moved, hmoved, hplaced⟩ := hjoins.exists_moved hget
    refine ⟨moved, hmoved, hplaced, ?_⟩
    exact movesJump_of_joins hjoins (by omega) (hresolved hright) (hresolved hwhole) hget hmoved
      hplaced (edges_of_get? rfl hright hget) (edges_of_get? rfl hwhole hmoved)

/-- Over the seam in both directions: a jump by 9 from offset 1 finds the third
instruction of the second part, and a jump by -4 from its start finds the start
of the first part. A branch inside the second part moves with it. -/
theorem jumps_relocate_over_seam :
    ∃ first second whole, decode dialect {} #[0x61, 0x62, 9, 0] = .ok first ∧
      decode dialect {} #[0x62, 0xfc, 0xff, 0x63, 0xfd, 0xff, 0x61] = .ok second ∧
      decode dialect {} #[0x61, 0x62, 9, 0, 0x62, 0xfc, 0xff, 0x63, 0xfd, 0xff, 0x61] =
        .ok whole ∧
      first.HasStatic 1 10 none ∧ whole.HasStatic 1 10 (some 4) ∧
      (second.get? 0).map (·.jump) = some none ∧ whole.HasStatic 2 0 (some 0) ∧
      (second.get? 1).map (·.jump) =
        some (some (.dynamic ⟨"neo", .conditional 0 true, .inactive⟩)) ∧
      (whole.get? 3).map (·.jump) =
        some (some (.dynamic ⟨"neo", .conditional 4 true, .inactive⟩)) := by
  have hfront : Cuts dialect {} 1 1 [0x62, 9, 0] _ :=
    @Cuts.single _ _ 1 1 0x62 _ (some ⟨.fixed 2, [], [9, 0]⟩) rfl opcode?_jmp (by decide)
  have hleft : Cuts dialect {} 0 0 [0x61, 0x62, 9, 0] _ :=
    @Cuts.cons _ _ 0 0 0x61 _ none _ _ rfl opcode?_nop (by decide) hfront
  have hlast : Cuts dialect {} 6 2 [0x61] _ :=
    @Cuts.single _ _ 6 2 0x61 _ none rfl opcode?_nop (by decide)
  have hback : Cuts dialect {} 3 1 [0x63, 0xfd, 0xff, 0x61] _ :=
    @Cuts.cons _ _ 3 1 0x63 _ (some ⟨.fixed 2, [], [0xfd, 0xff]⟩) _ _ rfl opcode?_jmpif
      (by decide) hlast
  have hright : Cuts dialect {} 0 0 [0x62, 0xfc, 0xff, 0x63, 0xfd, 0xff, 0x61] _ :=
    @Cuts.cons _ _ 0 0 0x62 _ (some ⟨.fixed 2, [], [0xfc, 0xff]⟩) _ _ rfl opcode?_jmp
      (by decide) hback
  have hfirst : decode dialect {} #[0x61, 0x62, 9, 0] = .ok _ := decode_of_cuts (by decide) hleft
  have hsecond : decode dialect {} #[0x62, 0xfc, 0xff, 0x63, 0xfd, 0xff, 0x61] = .ok _ :=
    decode_of_cuts (by decide) hright
  obtain ⟨whole, hwhole, -, hkeeps, hmoves⟩ := jumps_relocate (by decide) hfirst hsecond
  generalize hd : finish dialect {} _ = first at hfirst hkeeps hmoves
  generalize he : finish dialect {} _ = second at hsecond hkeeps hmoves
  have hforward : first.HasStatic 1 10 none := by
    rw [← hd]
    decide +kernel
  have hthird : second.startOf? 2 = some 6 := by
    rw [← he]
    decide +kernel
  have hstart : first.startOf? 0 = some 0 := by
    rw [← hd]
    decide +kernel
  have hcount : first.size = 2 := by
    rw [← hd]
    decide +kernel
  have hcross : second.get? 0 = some ⟨0, 0, entry 0x62 "JMP"
      "Jumps by the signed 16-bit offset relative to this instruction." (.fixed 2),
      some ⟨.fixed 2, [], [0xfc, 0xff]⟩, none, none⟩ := by
    rw [← he]
    decide +kernel
  have hbranch : (second.get? 1).map (·.jump) =
      some (some (.dynamic ⟨"neo", .conditional 0 true, .inactive⟩)) := by
    rw [← he]
    decide +kernel
  refine ⟨first, second, whole, hfirst, hsecond, hwhole, hforward, ?_, by rw [hcross]; rfl, ?_,
    hbranch, ?_⟩
  · obtain ⟨instruction, hget, hjump⟩ := Option.bind_eq_some_iff.1 hforward
    obtain ⟨kept, hkept, -, hkeep⟩ := hkeeps 1 instruction hget
    obtain ⟨known, hknown, hiff⟩ := hkeep.of_unknown 10 hjump
    rw [Disassembly.HasStatic, hkept, Option.bind_some, hknown,
      (hiff 4).2 ⟨2, 6, by omega, hthird, rfl⟩]
  · obtain ⟨moved, hmoved, -, hmove⟩ := hmoves 0 _ hcross
    obtain ⟨-, -, hleads⟩ := hmove.of_neg _ (-4)
      ⟨List.mem_cons_self, rfl, 0xfc, 0xff, rfl, by decide⟩ (by decide)
    obtain ⟨hedge, hiff⟩ := hleads 0 (by decide)
    obtain ⟨jump, hjump, hedge⟩ := Option.map_eq_some_iff.1 hedge
    obtain ⟨known, rfl⟩ := Jump.edge_eq_static.1 hedge
    rw [hcount] at hmoved
    rw [Disassembly.HasStatic, hmoved, Option.bind_some, hjump, (hiff known hjump 0).2 hstart]
  · obtain ⟨instruction, hget, hjump⟩ := Option.map_eq_some_iff.1 hbranch
    obtain ⟨moved, hmoved, -, hmove⟩ := hmoves 1 instruction hget
    rw [hcount] at hmoved
    rw [hmoved, Option.map_some, hmove.of_some _ hjump]
    rfl

end Neo

end Disasm
