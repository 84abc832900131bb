import Disasm.Decode
import Disasm.Proofs.Operand
/-!
# Cutting, as a grammar

`Cuts` says which instructions a string of bytes is cut into, with no code
around it: a byte that stands for an opcode, an operand that fits, and so on
to the end. `Stuck` says why bytes cannot begin another instruction. Bytes
are cut to their end or up to a place where they are stuck
(`cuts_or_stuck`), and the cutting loop goes through any bytes that are cut
(`cutFrom_of_cuts`). Together they make the outcome of `cut` a matter of the
bytes alone: `cut_of_cuts` and `cut_of_stuck`.
-/

namespace Disasm

open Operand (written)

/-- **The bytes are cut into the instructions**, the bytes being those from
`pos` on and the first instruction the one numbered `number`. -/
inductive Cuts (dialect : Dialect) (settings : Settings) :
    (pos number : Nat) → List UInt8 → List Instruction → Prop
  /-- No bytes are no instructions. -/
  | nil (pos number : Nat) : Cuts dialect settings pos number [] []
  /-- A byte that stands for an opcode and an operand that fits are one more
  instruction, if the settings allow it. -/
  | cons {pos number : Nat} {byte : UInt8} {opcode : OpCode} {operand : Option Operand}
      {bytes : List UInt8} {instructions : List Instruction} :
      settings.atLimit? number = none → dialect.opcode? byte = some opcode →
      opcode.shape.Fits operand →
      Cuts dialect settings (pos + 1 + (written operand).length) (number + 1) bytes
        instructions →
      Cuts dialect settings pos number (byte :: (written operand ++ bytes))
        ({ number, offset := UInt32.ofNat pos, opcode, operand } :: instructions)

/-- **The bytes begin no instruction**, for the reason given. -/
inductive Stuck (dialect : Dialect) (settings : Settings) (pos number : Nat) :
    List UInt8 → DecodeError → Prop
  /-- The settings allow no more instructions. -/
  | limit {byte : UInt8} {rest : List UInt8} {limit : UInt64} :
      settings.atLimit? number = some limit →
      Stuck dialect settings pos number (byte :: rest) (.instructionLimit limit)
  /-- The first byte is no opcode. -/
  | unknown {byte : UInt8} {rest : List UInt8} :
      settings.atLimit? number = none → dialect.opcode? byte = none →
      Stuck dialect settings pos number (byte :: rest) (.unknownOpCode (UInt32.ofNat pos) byte)
  /-- The operand is refused. -/
  | operand {byte : UInt8} {rest : List UInt8} {opcode : OpCode} {e : ReadError} :
      settings.atLimit? number = none → dialect.opcode? byte = some opcode →
      Operand.parse opcode.shape rest = .error e →
      Stuck dialect settings pos number (byte :: rest) (e.at (UInt32.ofNat pos) opcode byte)

variable {dialect : Dialect} {settings : Settings} {code : Code}
variable {pos number : Nat} {bytes front rest : List UInt8} {instructions : List Instruction}

/-- Without a limit there is always room for an instruction. -/
theorem atLimit?_of_none (h : settings.maxInstructions = none) (place : Nat) :
    settings.atLimit? place = none := by
  rw [Settings.atLimit?, h]
  rfl

/-- There is none from the place on that the limit names. -/
theorem atLimit?_eq_some_iff {place : Nat} {limit : UInt64} :
    settings.atLimit? place = some limit ↔
      settings.maxInstructions = some limit ∧ limit.toNat ≤ place := by
  simp [Settings.atLimit?, Option.filter_eq_some_iff]

/-! ## Bytes are cut or stuck -/

/-- A byte and what follows it begin an instruction or are stuck. -/
theorem fits_or_stuck (dialect : Dialect) (settings : Settings) (pos number : Nat) (byte : UInt8)
    (rest : List UInt8) :
    (settings.atLimit? number = none ∧ ∃ opcode operand tail, dialect.opcode? byte = some opcode ∧
      opcode.shape.Fits operand ∧ rest = written operand ++ tail) ∨
    ∃ e, Stuck dialect settings pos number (byte :: rest) e := by
  cases hlimit : settings.atLimit? number with
  | some limit => exact .inr ⟨_, .limit hlimit⟩
  | none =>
    cases hop : dialect.opcode? byte with
    | none => exact .inr ⟨_, .unknown hlimit hop⟩
    | some opcode =>
      cases hparse : Operand.parse opcode.shape rest with
      | error e => exact .inr ⟨_, .operand hlimit hop hparse⟩
      | ok result =>
        obtain ⟨hfits, -, tail, htail⟩ := Operand.written_of_parse hparse
        exact .inl ⟨rfl, opcode, result.1, tail, rfl, hfits, htail⟩

/-- **Bytes are cut to their end or up to where they are stuck.** -/
theorem cuts_or_stuck (dialect : Dialect) (settings : Settings) (pos number : Nat)
    (bytes : List UInt8) :
    (∃ instructions, Cuts dialect settings pos number bytes instructions) ∨
    ∃ front rest instructions e, bytes = front ++ rest ∧
      Cuts dialect settings pos number front instructions ∧
      Stuck dialect settings (pos + front.length) (number + instructions.length) rest e := by
  -- every instruction takes a byte, so the induction is on how many are left
  induction hn : bytes.length using Nat.strongRecOn generalizing pos number bytes with
  | ind n ih =>
    cases bytes with
    | nil => exact .inl ⟨[], .nil pos number⟩
    | cons byte tail =>
      obtain ⟨hlimit, opcode, operand, tail, hop, hfits, rfl⟩ | ⟨e, hstuck⟩ :=
        fits_or_stuck dialect settings pos number byte tail
      · rw [List.length_cons, List.length_append] at hn
        obtain ⟨instructions, h⟩ | ⟨front, rest, instructions, e, rfl, h, hstuck⟩ :=
          ih tail.length (by omega) (pos + 1 + (written operand).length) (number + 1) tail rfl
        · exact .inl ⟨_, .cons hlimit hop hfits h⟩
        · refine .inr ⟨byte :: (written operand ++ front), rest, _, e, by simp,
            .cons hlimit hop hfits h, ?_⟩
          simp only [List.length_cons, List.length_append]
          rwa [show pos + ((written operand).length + front.length + 1) =
              pos + 1 + (written operand).length + front.length by omega,
            show number + (instructions.length + 1) = number + 1 + instructions.length by omega]
      · exact .inr ⟨[], _, [], e, rfl, .nil pos number, hstuck⟩

/-- Every instruction takes a byte or more. -/
theorem Cuts.length_le (h : Cuts dialect settings pos number bytes instructions) :
    instructions.length ≤ bytes.length := by
  induction h with
  | nil => exact le_rfl
  | cons _ _ _ _ ih =>
    simp only [List.length_cons, List.length_append]
    omega

/-- Of the settings only the limit matters to cutting. -/
theorem Cuts.congr_settings {settings' : Settings}
    (hlimit : settings'.maxInstructions = settings.maxInstructions)
    (h : Cuts dialect settings pos number bytes instructions) :
    Cuts dialect settings' pos number bytes instructions := by
  induction h with
  | nil => exact .nil _ _
  | cons hfree hop hfits _ ih =>
    refine .cons ?_ hop hfits ih
    rwa [Settings.atLimit?, hlimit]

/-- An opcode and its operand, with nothing after them, are one instruction. -/
theorem Cuts.single {byte : UInt8} {opcode : OpCode} {operand : Option Operand}
    (hlimit : settings.atLimit? number = none) (hop : dialect.opcode? byte = some opcode)
    (hfits : opcode.shape.Fits operand) :
    Cuts dialect settings pos number (byte :: written operand)
      [{ number, offset := UInt32.ofNat pos, opcode, operand }] := by
  have h : Cuts dialect settings pos number _ _ := .cons hlimit hop hfits (.nil _ _)
  rwa [List.append_nil] at h

/-- Bytes that are cut and then more bytes that are cut are cut together. -/
theorem Cuts.append {others : List Instruction}
    (h : Cuts dialect settings pos number front instructions)
    (hrest : Cuts dialect settings (pos + front.length) (number + instructions.length) rest
      others) :
    Cuts dialect settings pos number (front ++ rest) (instructions ++ others) := by
  induction h with
  | nil => simpa using hrest
  | @cons pos number byte opcode operand bytes instructions hlimit hop hfits _ ih =>
    simp only [List.length_cons, List.length_append] at hrest
    rw [List.cons_append, List.append_assoc, List.cons_append]
    refine .cons hlimit hop hfits (ih ?_)
    rwa [show pos + 1 + (written operand).length + bytes.length =
        pos + ((written operand).length + bytes.length + 1) by omega,
      show number + 1 + instructions.length = number + (instructions.length + 1) by omega]

/-- No more instructions are cut off than the limit allows. -/
theorem Cuts.add_length_le {limit : UInt64} (hmax : settings.maxInstructions = some limit)
    (h : Cuts dialect settings pos number bytes instructions) (hnumber : number ≤ limit.toNat) :
    number + instructions.length ≤ limit.toNat := by
  induction h with
  | nil => exact hnumber
  | @cons pos number _ _ _ _ instructions hfree _ _ _ ih =>
    have hlt : number < limit.toNat := by
      by_contra hle
      rw [atLimit?_eq_some_iff.2 ⟨hmax, by omega⟩] at hfree
      cases hfree
    have hrest := ih hlt
    rw [List.length_cons]
    omega

/-- A place where bytes are stuck has a byte. -/
theorem Stuck.length_pos {e : DecodeError} (h : Stuck dialect settings pos number bytes e) :
    0 < bytes.length := by
  cases h <;> exact Nat.succ_pos _

/-- Where they are stuck for the limit, the settings name it. -/
theorem Stuck.atLimit?_eq {e : DecodeError} {limit : UInt64}
    (h : Stuck dialect settings pos number bytes e) (he : e = .instructionLimit limit) :
    settings.atLimit? number = some limit := by
  cases h with
  | limit hlimit =>
    cases he
    exact hlimit
  | unknown _ _ => cases he
  | @operand _ _ _ cause _ _ _ => cases cause <;> cases he

/-! ## The loop goes through what is cut -/

/-- A position in code that decoding accepts is followed by positions. -/
theorem lt_count_of_lt {n : Nat} (h : n < UInt32.size) : n + 1 < Position.count := by
  have hsize : UInt32.size + 1 < Position.count := by decide
  omega

/-- One step cuts off an instruction that the bytes begin with. -/
theorem cutOne_of_fits {byte : UInt8} {opcode : OpCode} {operand : Option Operand}
    (hcode : code.size < UInt32.size)
    (hbytes : code.toList.drop pos = byte :: (written operand ++ rest))
    (hlimit : settings.atLimit? number = none) (hop : dialect.opcode? byte = some opcode)
    (hfits : opcode.shape.Fits operand) :
    cutOne dialect settings code pos number =
      .ok ({ number, offset := UInt32.ofNat pos, opcode, operand },
        pos + 1 + (written operand).length) := by
  have hlen := code.length_drop pos
  rw [hbytes, List.length_cons, List.length_append] at hlen
  have hcount := lt_count_of_lt hcode
  have hrest := Code.drop_succ_of_drop hbytes
  have hread : Operand.read opcode.shape code (pos + 1) =
      .ok (operand, (written operand).length) := by
    rw [Operand.read_eq_parse (by omega) (by omega), hrest]
    exact Operand.parse_written hfits (by omega) rest
  simp only [cutOne, hlimit, Code.byteAt_of_drop hbytes, Access.lift_ok_decode, Access.ok_bind,
    hop, Position.add_of_lt (show pos + 1 < Position.count by omega), hread, Access.mapError_ok,
    Position.add_of_lt (show 1 + (written operand).length < Position.count by omega),
    Position.add_of_lt (show pos + (1 + (written operand).length) < Position.count by omega),
    Access.pure_eq_ok, Nat.add_assoc]

/-- And stops where they are stuck. -/
theorem cutOne_of_stuck {e : DecodeError} (hcode : code.size < UInt32.size)
    (hbytes : code.toList.drop pos = bytes) (h : Stuck dialect settings pos number bytes e) :
    cutOne dialect settings code pos number = .error e := by
  have hlen := code.length_drop pos
  have hpos := h.length_pos
  rw [hbytes] at hlen
  have hcount := lt_count_of_lt hcode
  cases h with
  | limit hlimit => simp only [cutOne, hlimit]
  | unknown hlimit hop =>
    simp only [cutOne, hlimit, Code.byteAt_of_drop hbytes, Access.lift_ok_decode,
      Access.ok_bind, hop, Access.throw_eq_error]
  | @operand byte rest opcode e hlimit hop hparse =>
    have hrest := Code.drop_succ_of_drop hbytes
    have hread : Operand.read opcode.shape code (pos + 1) = .error e := by
      rw [Operand.read_eq_parse (by omega) (by omega), hrest, hparse]
    simp only [cutOne, hlimit, Code.byteAt_of_drop hbytes, Access.lift_ok_decode,
      Access.ok_bind, hop, Position.add_of_lt (show pos + 1 < Position.count by omega), hread,
      Access.mapError_error, Access.error_bind]

/-- Inside bytes that are cut, one step leads from an instruction to the bytes
of the others. -/
theorem cutOne_of_drop {byte : UInt8} {opcode : OpCode} {operand : Option Operand}
    (hcode : code.size < UInt32.size)
    (hbytes : code.toList.drop pos = byte :: (written operand ++ bytes) ++ rest)
    (hlimit : settings.atLimit? number = none) (hop : dialect.opcode? byte = some opcode)
    (hfits : opcode.shape.Fits operand) :
    pos < code.size ∧
      cutOne dialect settings code pos number =
        .ok ({ number, offset := UInt32.ofNat pos, opcode, operand },
          pos + 1 + (written operand).length) ∧
      code.toList.drop (pos + 1 + (written operand).length) = bytes ++ rest := by
  have hlen := code.length_drop pos
  rw [hbytes] at hlen
  simp only [List.cons_append, List.append_assoc, List.length_cons] at hbytes hlen
  refine ⟨by omega, cutOne_of_fits hcode hbytes hlimit hop hfits, ?_⟩
  rw [← List.drop_drop, Code.drop_succ_of_drop hbytes, List.drop_left]

/-- **The loop goes through bytes that are cut**, one step for each
instruction, and is then at the position after them. -/
theorem cutFrom_of_cuts (hcode : code.size < UInt32.size)
    (h : Cuts dialect settings pos number front instructions) (steps : Nat)
    {done : Array Instruction} (hdone : done.size = number)
    (hbytes : code.toList.drop pos = front ++ rest) :
    cutFrom dialect settings code (steps + instructions.length) pos done =
      cutFrom dialect settings code steps (pos + front.length) (done ++ instructions.toArray) := by
  -- `done` grows with each instruction, so it is general; its size is the next number
  induction h generalizing done with
  | nil => simp
  | @cons pos number byte opcode operand bytes instructions hlimit hop hfits _ ih =>
    obtain ⟨hpos, hone, hnext⟩ := cutOne_of_drop hcode hbytes hlimit hop hfits
    rw [List.length_cons, ← Nat.add_assoc, cutFrom, if_pos hpos, hdone, hone]
    simp only
    rw [ih (by rw [Array.size_push, hdone]) hnext]
    congr 1
    · simp only [List.length_cons, List.length_append]
      omega
    · simp

/-- At the end of the code the loop is done. -/
theorem cutFrom_of_size_le (h : code.size ≤ pos) (steps : Nat) (done : Array Instruction) :
    cutFrom dialect settings code steps pos done = .ok done := by
  cases steps <;> rw [cutFrom.eq_def] <;> exact if_neg (by omega)

/-- Bytes that are cut to their end are cut so by `cut`. -/
theorem cut_of_cuts (hcode : code.size < UInt32.size)
    (h : Cuts dialect settings 0 0 code.toList instructions) :
    cut dialect settings code = .ok instructions := by
  have hle : instructions.length ≤ code.size := h.length_le
  have hrun := cutFrom_of_cuts hcode h (code.size - instructions.length)
    (show (#[] : Array Instruction).size = 0 from rfl)
    (show code.toList.drop 0 = code.toList ++ [] by simp)
  rw [Nat.sub_add_cancel hle] at hrun
  rw [cut, hrun, cutFrom_of_size_le (by simp)]
  simp

/-- And where they are stuck, `cut` fails for that reason. -/
theorem cut_of_stuck {e : DecodeError} (hcode : code.size < UInt32.size)
    (hbytes : code.toList = front ++ rest)
    (h : Cuts dialect settings 0 0 front instructions)
    (hstuck : Stuck dialect settings front.length instructions.length rest e) :
    cut dialect settings code = .error e := by
  have hle := h.length_le
  have hpos := hstuck.length_pos
  have hlen := Code.size_of_append hbytes
  -- the bytes left over pay for the step that fails
  obtain ⟨steps, hsteps⟩ : ∃ steps, code.size = steps + 1 + instructions.length :=
    ⟨code.size - instructions.length - 1, by omega⟩
  have hrun := cutFrom_of_cuts hcode h (steps + 1)
    (show (#[] : Array Instruction).size = 0 from rfl)
    (show code.toList.drop 0 = front ++ rest by simpa using hbytes)
  have hone := cutOne_of_stuck hcode
    (show code.toList.drop front.length = rest by rw [hbytes, List.drop_left]) hstuck
  rw [← hsteps, Nat.zero_add, Array.empty_append] at hrun
  rw [cut, hrun, cutFrom, if_pos (by omega)]
  simp [hone]

end Disasm
