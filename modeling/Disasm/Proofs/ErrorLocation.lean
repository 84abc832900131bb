import Disasm.Proofs.Decoding
/-!
# Where decoding fails

An error that names an offset is about the instruction there. `FaultAt` says
what is wrong at an offset of the code, with reading done on the code itself.
Where decoding fails the code before the offset can be decoded, and the error
is the fault there; and if the number of instructions is not limited, a fault
that decodable code leads up to is what decoding fails with
(`decode_error_located`). The three kinds of fault count what is available
from one origin, the byte after the opcode.
-/

namespace Disasm

/-- The offset that an error names, if it is about an instruction. -/
def DecodeError.offset? : DecodeError → Option UInt32
  | .unknownOpCode offset _ => some offset
  | .truncatedOperand offset _ _ _ _ => some offset
  | .oversizedOperand offset _ _ _ _ => some offset
  | .instructionLimit _ | .streamTooLarge _ | .invalidHex _ | .trap _ => none

/-- How many bytes an error says were available to an operand. -/
def DecodeError.available? : DecodeError → Option Nat
  | .truncatedOperand _ _ _ _ available => some available
  | .oversizedOperand _ _ _ _ available => some available
  | .unknownOpCode _ _ | .instructionLimit _ | .streamTooLarge _ | .invalidHex _ | .trap _ => none

/-- **What is wrong at an offset of the code**, as an error. -/
inductive FaultAt (dialect : Dialect) (code : Code) (offset : UInt32) : DecodeError → Prop
  /-- The byte there is no opcode. -/
  | unknown {byte : UInt8} :
      code[offset.toNat]? = some byte → dialect.opcode? byte = none →
      FaultAt dialect code offset (.unknownOpCode offset byte)
  /-- The operand of the opcode there is not in the code to its end. -/
  | truncated {byte : UInt8} {opcode : OpCode} {needed available : Nat} :
      code[offset.toNat]? = some byte → dialect.opcode? byte = some opcode →
      Operand.read opcode.shape code (offset.toNat + 1) = .error (.truncated needed available) →
      FaultAt dialect code offset (.truncatedOperand offset byte opcode.name needed available)
  /-- The operand of the opcode there ends beyond any position. -/
  | oversized {byte : UInt8} {opcode : OpCode} {declared : UInt64} {available : Nat} :
      code[offset.toNat]? = some byte → dialect.opcode? byte = some opcode →
      Operand.read opcode.shape code (offset.toNat + 1) =
        .error (.oversized declared available) →
      FaultAt dialect code offset (.oversizedOperand offset byte opcode.name declared available)

variable {dialect : Dialect} {settings : Settings} {code : Code} {offset : UInt32}
variable {number : Nat} {front rest : List UInt8} {e : DecodeError}

/-- A fault is inside the code. -/
theorem FaultAt.lt_size (h : FaultAt dialect code offset e) : offset.toNat < code.size := by
  cases h with
  | unknown hbyte _ => exact (Array.getElem?_eq_some_iff.1 hbyte).1
  | truncated hbyte _ _ => exact (Array.getElem?_eq_some_iff.1 hbyte).1
  | oversized hbyte _ _ => exact (Array.getElem?_eq_some_iff.1 hbyte).1

/-! ## The code on both sides of a fault -/

/-- The byte after a first part of the code. -/
theorem getElem?_of_append {byte : UInt8} (hbytes : code.toList = front ++ byte :: rest) :
    code[front.length]? = some byte := by
  rw [← Array.getElem?_toList, hbytes, List.getElem?_append_right le_rfl, Nat.sub_self]
  rfl

/-- Reading an operand after that byte is parsing what follows. -/
theorem read_of_append {byte : UInt8} (hcode : code.size < UInt32.size)
    (hbytes : code.toList = front ++ byte :: rest) (shape : Shape) :
    Operand.read shape code (front.length + 1) = Operand.parse shape rest := by
  have hlen := Code.size_of_append hbytes
  rw [List.length_cons] at hlen
  have hcount := lt_count_of_lt hcode
  have hdrop : code.toList.drop front.length = byte :: rest := by rw [hbytes, List.drop_left]
  rw [Operand.read_eq_parse (by omega) (by omega), Code.drop_succ_of_drop hdrop]

/-- A first part of the code that is cut to its end can be decoded. -/
theorem exists_decode_of_append {instructions : List Instruction}
    (hcode : code.size < UInt32.size) (hbytes : code.toList = front ++ rest)
    (hcuts : Cuts dialect settings 0 0 front instructions) :
    ∃ d, decode dialect settings (code.extract 0 front.length) = .ok d := by
  have hlen := Code.size_of_append hbytes
  exact ⟨_, decode_extract_of_cuts (by omega) hbytes hcuts⟩

/-- **A byte that is no opcode, or whose operand is refused, is a fault**: inside
the code no operand is refused for another reason than the two. -/
theorem exists_faultAt {byte : UInt8} (hcode : code.size < UInt32.size)
    (hbyte : code[offset.toNat]? = some byte)
    (h : dialect.opcode? byte = none ∨ ∃ opcode e, dialect.opcode? byte = some opcode ∧
      Operand.read opcode.shape code (offset.toNat + 1) = .error e) :
    ∃ e, FaultAt dialect code offset e := by
  obtain hop | ⟨opcode, e, hop, hread⟩ := h
  · exact ⟨_, .unknown hbyte hop⟩
  · have hlt : offset.toNat < code.size := (Array.getElem?_eq_some_iff.1 hbyte).1
    have hcount := lt_count_of_lt hcode
    have hparse := hread
    rw [Operand.read_eq_parse (by omega) (by omega)] at hparse
    obtain ⟨needed, rfl⟩ | ⟨declared, rfl⟩ := Operand.available_of_parse hparse
    · exact ⟨_, .truncated hbyte hop hread⟩
    · exact ⟨_, .oversized hbyte hop hread⟩

/-! ## Faults are where bytes are stuck -/

/-- Where bytes are stuck with an error that names an offset, that is the
offset, and the error is the fault there. -/
theorem faultAt_of_stuck (hcode : code.size < UInt32.size) (hbytes : code.toList = front ++ rest)
    (h : Stuck dialect settings front.length number rest e) (hoffset : e.offset? = some offset) :
    offset.toNat = front.length ∧ FaultAt dialect code offset e ∧
      ∀ available, e.available? = some available →
        available = code.size - offset.toNat - 1 := by
  have hlen := Code.size_of_append hbytes
  have hpos : (UInt32.ofNat front.length).toNat = front.length :=
    UInt32.toNat_ofNat_of_lt' (by omega)
  cases h with
  | limit _ => cases hoffset
  | unknown _ hop =>
    obtain rfl := Option.some.inj hoffset
    refine ⟨hpos, .unknown ?_ hop, by rintro _ ⟨⟩⟩
    rw [hpos, getElem?_of_append hbytes]
  | @operand byte rest opcode e _ hop hparse =>
    rw [List.length_cons] at hlen
    have hbyte : code[(UInt32.ofNat front.length).toNat]? = some byte := by
      rw [hpos, getElem?_of_append hbytes]
    have hread : Operand.read opcode.shape code ((UInt32.ofNat front.length).toNat + 1) =
        .error e := by
      rw [hpos, read_of_append hcode hbytes, hparse]
    obtain ⟨needed, rfl⟩ | ⟨declared, rfl⟩ := Operand.available_of_parse hparse
    · obtain rfl := Option.some.inj hoffset
      refine ⟨hpos, .truncated hbyte hop hread, ?_⟩
      rintro _ ⟨⟩
      omega
    · obtain rfl := Option.some.inj hoffset
      refine ⟨hpos, .oversized hbyte hop hread, ?_⟩
      rintro _ ⟨⟩
      omega

/-- And a fault is a place where the bytes are stuck, if the settings allow an
instruction there. -/
theorem stuck_of_faultAt (hcode : code.size < UInt32.size) (hbytes : code.toList = front ++ rest)
    (hoffset : offset.toNat = front.length) (hlimit : settings.atLimit? number = none)
    (h : FaultAt dialect code offset e) :
    Stuck dialect settings front.length number rest e := by
  have hofNat : UInt32.ofNat front.length = offset := by rw [← hoffset, UInt32.ofNat_toNat]
  -- the bytes after the first part begin with the byte at the fault
  have hsplit : ∀ byte, code[offset.toNat]? = some byte → ∃ tail, rest = byte :: tail := by
    intro byte hbyte
    rw [hoffset, ← Array.getElem?_toList, hbytes, List.getElem?_append_right le_rfl,
      Nat.sub_self] at hbyte
    cases rest with
    | nil => cases hbyte
    | cons first tail => exact ⟨tail, by rw [Option.some.inj hbyte]⟩
  cases h with
  | unknown hbyte hop =>
    obtain ⟨tail, rfl⟩ := hsplit _ hbyte
    rw [← hofNat]
    exact .unknown hlimit hop
  | truncated hbyte hop hread =>
    obtain ⟨tail, rfl⟩ := hsplit _ hbyte
    rw [hoffset, read_of_append hcode hbytes] at hread
    rw [← hofNat]
    exact .operand hlimit hop hread
  | oversized hbyte hop hread =>
    obtain ⟨tail, rfl⟩ := hsplit _ hbyte
    rw [hoffset, read_of_append hcode hbytes] at hread
    rw [← hofNat]
    exact .operand hlimit hop hread

/-! ## Errors are located -/

/-- **An error names the place of the first fault.** Where decoding fails with
an error that names an offset, the code before the offset can be decoded
under the same settings, and the error is the fault there. Conversely, with
no limit on instructions, a fault that decodable code leads up to is what
decoding fails with; and there is a fault wherever a byte is no opcode or its
operand is refused. -/
theorem decode_error_located (dialect : Dialect) (settings : Settings) {code : Code}
    (hcode : code.size < UInt32.size) :
    (∀ e offset, decode dialect settings code = .error e → e.offset? = some offset →
      offset.toNat < code.size ∧
      (∃ d, decode dialect settings (code.extract 0 offset.toNat) = .ok d) ∧
      FaultAt dialect code offset e ∧
      ∀ available, e.available? = some available → available = code.size - offset.toNat - 1) ∧
    (settings.maxInstructions = none → ∀ e offset,
      (∃ d, decode dialect settings (code.extract 0 offset.toNat) = .ok d) →
      FaultAt dialect code offset e → decode dialect settings code = .error e) ∧
    ∀ (offset : UInt32) (byte : UInt8), code[offset.toNat]? = some byte →
      (dialect.opcode? byte = none ∨ ∃ opcode e, dialect.opcode? byte = some opcode ∧
        Operand.read opcode.shape code (offset.toNat + 1) = .error e) →
      ∃ e, FaultAt dialect code offset e := by
  refine ⟨?_, ?_, fun offset byte hbyte => exists_faultAt hcode hbyte⟩
  · intro e offset h hoffset
    obtain ⟨front, rest, instructions, hbytes, hcuts, hstuck⟩ := (decode_eq_error_iff hcode).1 h
    obtain ⟨hplace, hfault, havailable⟩ := faultAt_of_stuck hcode hbytes hstuck hoffset
    have hlen := Code.size_of_append hbytes
    have hrest := hstuck.length_pos
    refine ⟨by omega, ?_, hfault, havailable⟩
    rw [hplace]
    exact exists_decode_of_append hcode hbytes hcuts
  · rintro hlimit e offset ⟨d, hd⟩ hfault
    have hsize := hfault.lt_size
    have hbytes := (List.take_append_drop offset.toNat code.toList).symm
    have hlen : offset.toNat = (code.toList.take offset.toNat).length := by
      rw [List.length_take, Array.length_toList]
      omega
    -- the code before the offset is cut to its end, so the run comes to the fault
    have hcuts := cuts_of_decode hd
    rw [Code.toList_extract_zero] at hcuts
    exact decode_of_stuck hcode hbytes hcuts
      (stuck_of_faultAt hcode hbytes hlen (atLimit?_of_none hlimit _) hfault)

/-- The dialect with one opcode, whose operand has a variable count. -/
def varDialect : Dialect :=
  Dialect.ofTable "var" (OpCodeTable.empty.extend [⟨1, "VAR", "", .varCounted⟩])
    (fun _ _ => none) []

/-- The second instruction ends inside its count. -/
theorem decode_error_located_varDialect :
    decode varDialect {} #[1, 1, 7, 1, 0xfd, 9] = .error (.truncatedOperand 3 1 "VAR" 3 2) ∧
      FaultAt varDialect #[1, 1, 7, 1, 0xfd, 9] 3 (.truncatedOperand 3 1 "VAR" 3 2) := by
  have hcode : (#[1, 1, 7, 1, 0xfd, 9] : Code).size < UInt32.size := by decide
  have hcuts : Cuts varDialect {} 0 0 [1, 1, 7] _ :=
    @Cuts.cons _ _ 0 0 1 _ (some ⟨.varCounted, [1], [7]⟩) [] [] rfl rfl (by decide) (.nil 3 1)
  have hbefore : ∃ d, decode varDialect {} (Array.extract #[1, 1, 7, 1, 0xfd, 9] 0 3) = .ok d :=
    exists_decode_of_append hcode (show _ = [1, 1, 7] ++ [1, 0xfd, 9] from rfl) hcuts
  have herror : decode varDialect {} #[1, 1, 7, 1, 0xfd, 9] =
      .error (.truncatedOperand 3 1 "VAR" 3 2) :=
    (decode_error_located varDialect {} hcode).2.1 rfl _ 3 hbefore
      (@FaultAt.truncated _ _ 3 1 ⟨1, "VAR", "", .varCounted⟩ 3 2 rfl rfl rfl)
  obtain ⟨-, -, hfault, -⟩ :=
    (decode_error_located varDialect {} hcode).1 _ 3 herror rfl
  exact ⟨herror, hfault⟩

end Disasm
