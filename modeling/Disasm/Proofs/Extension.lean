import Disasm.Proofs.ErrorLocation
/-!
# Errors when more code follows

Bytes that come after the code leave the instructions that were cut off
alone, and decoding comes to the same place as before. An error that blames
the byte there, or the number of instructions, stays as it is. One about an
operand counts the new bytes as available; an operand that ends too early is
complete as soon as what is missing has come, whatever it is, if its length
field was already there. The account of what is missing is
`Operand.parse_eq_truncated_iff`, and `Stuck.append` carries it from the
operand to the place in the code.
-/

namespace Disasm

open Operand (fieldSize written)
open Instruction (bare)

namespace DecodeError

/-- The error with `more` bytes available that do not mend it. -/
def grown (more : Nat) : DecodeError → DecodeError
  | .truncatedOperand offset byte opcode needed available =>
    .truncatedOperand offset byte opcode needed (available + more)
  | .oversizedOperand offset byte opcode declared available =>
    .oversizedOperand offset byte opcode declared (available + more)
  | e => e

/-- How many bytes an error says are missing. -/
def missing? : DecodeError → Option Nat
  | .truncatedOperand _ _ _ needed available => some (needed - available)
  | _ => none

end DecodeError

/-! ## Operands -/

namespace Operand

variable {shape : Shape} {rest : List UInt8}

/-- A length field that is there is as long as it was. -/
theorem fieldSize_append_of_le (h : fieldSize shape rest ≤ rest.length) (tail : List UInt8) :
    fieldSize shape (rest ++ tail) = fieldSize shape rest := by
  cases rest with
  | cons marker rest => cases shape <;> rfl
  | nil =>
    cases shape with
    | varCounted => exact absurd h (by decide)
    | _ => rfl

/-- So is one that is still not there to its end. -/
theorem fieldSize_append_of_lt {tail : List UInt8}
    (h : (rest ++ tail).length < fieldSize shape rest) :
    fieldSize shape (rest ++ tail) = fieldSize shape rest := by
  cases rest with
  | cons marker rest => cases shape <;> rfl
  | nil =>
    cases shape with
    | varCounted =>
      obtain rfl : tail = [] := List.length_eq_zero_iff.1 (Nat.lt_one_iff.1 h)
      rfl
    | _ => rfl

/-- A length field that is there announces what it did. -/
theorem announced_append_of_le (h : fieldSize shape rest ≤ rest.length) (tail : List UInt8) :
    announced shape (rest ++ tail) = announced shape rest := by
  cases shape with
  | nullary => rfl
  | fixed size => rfl
  | counted width =>
    rw [fieldSize] at h
    rw [announced, announced, List.take_append_of_le_length h]
  | varCounted =>
    cases rest with
    | nil => exact absurd h (by decide)
    | cons marker rest =>
      rw [fieldSize, List.length_cons] at h
      rw [List.cons_append, announced, announced, List.take_append_of_le_length (by omega)]

/-- An operand that ends beyond any position does so whatever follows. -/
theorem parse_append_of_oversized {declared : UInt64} {available : Nat}
    (h : parse shape rest = .error (.oversized declared available)) (tail : List UInt8) :
    parse shape (rest ++ tail) = .error (.oversized declared (available + tail.length)) := by
  obtain ⟨hshape, rfl, hfield, rfl, hover⟩ := parse_eq_oversized_iff.1 h
  rw [parse_eq_oversized_iff, fieldSize_append_of_le hfield, announced_append_of_le hfield,
    List.length_append]
  exact ⟨hshape, rfl, by omega, rfl, hover⟩

/-- Fewer bytes than are missing do not complete an operand, and as many are
needed as before. -/
theorem parse_append_of_lt_missing {needed available : Nat} {tail : List UInt8}
    (h : parse shape rest = .error (.truncated needed available))
    (htail : tail.length < needed - available) :
    parse shape (rest ++ tail) = .error (.truncated needed (available + tail.length)) := by
  obtain ⟨hshape, rfl, hlt, hneeded⟩ := parse_eq_truncated_iff.1 h
  have hlen : (rest ++ tail).length = rest.length + tail.length := List.length_append
  rw [parse_eq_truncated_iff]
  refine ⟨hshape, hlen.symm, by omega, ?_⟩
  rcases hneeded with rfl | ⟨hfield, rfl, hcount⟩
  · exact .inl (fieldSize_append_of_lt (by omega)).symm
  · rw [fieldSize_append_of_le hfield, announced_append_of_le hfield]
    exact .inr ⟨by omega, rfl, hcount⟩

/-- **As many bytes as are missing complete the operand**, whatever they are,
once its length field is there. -/
theorem exists_fits_of_missing {needed available : Nat} {tail : List UInt8}
    (h : parse shape rest = .error (.truncated needed available))
    (hfield : fieldSize shape rest ≤ available) (htail : tail.length = needed - available) :
    ∃ operand, shape.Fits operand ∧ written operand = rest ++ tail := by
  obtain ⟨hshape, rfl, hlt, hneeded⟩ := parse_eq_truncated_iff.1 h
  -- it is not the length field that was missing
  obtain ⟨-, rfl, -⟩ := hneeded.resolve_left (by omega)
  have hsize := fieldSize_append_of_le hfield tail
  have hannounced := announced_append_of_le hfield tail
  have hlen : announced shape (rest ++ tail) + fieldSize shape (rest ++ tail) =
      (rest ++ tail).length := by
    rw [hsize, hannounced, List.length_append]
    omega
  have hpayload : ((rest ++ tail).drop (fieldSize shape (rest ++ tail))).length ≤
      announced shape (rest ++ tail) := by
    rw [List.length_drop]
    omega
  refine ⟨some ⟨_, _, _⟩, ⟨rfl, wellFormed_of_le hshape hlen.le⟩, ?_⟩
  rw [written_some, List.take_of_length_le hpayload]
  exact List.take_append_drop _ _

end Operand

/-! ## Places where bytes are stuck -/

variable {dialect : Dialect} {settings : Settings} {code extra : Code}
variable {pos number : Nat} {bytes tail : List UInt8} {e : DecodeError}

/-- **Bytes that are stuck stay stuck when more follow**, unless these are all
that is missing. -/
theorem Stuck.append (h : Stuck dialect settings pos number bytes e)
    (htail : ∀ missing, e.missing? = some missing → tail.length < missing) :
    Stuck dialect settings pos number (bytes ++ tail) (e.grown tail.length) := by
  cases h with
  | limit hlimit => exact .limit hlimit
  | unknown hlimit hop => exact .unknown hlimit hop
  | operand hlimit hop hparse =>
    obtain ⟨needed, rfl⟩ | ⟨declared, rfl⟩ := Operand.available_of_parse hparse
    · exact .operand hlimit hop (Operand.parse_append_of_lt_missing hparse (htail _ rfl))
    · exact .operand hlimit hop (Operand.parse_append_of_oversized hparse tail)

/-- Where bytes are stuck for an operand that ends too early, there is an opcode
whose operand does. -/
theorem Stuck.exists_parse {offset : UInt32} {byte : UInt8} {name : String}
    {needed available : Nat} (h : Stuck dialect settings pos number bytes e)
    (he : e = .truncatedOperand offset byte name needed available) :
    ∃ opcode rest, bytes = byte :: rest ∧ offset = UInt32.ofNat pos ∧ opcode.name = name ∧
      settings.atLimit? number = none ∧ dialect.opcode? byte = some opcode ∧
      Operand.parse opcode.shape rest = .error (.truncated needed available) := by
  cases h with
  | limit _ => cases he
  | unknown _ _ => cases he
  | @operand _ rest opcode cause hlimit hop hparse =>
    cases cause with
    | truncated _ _ =>
      cases he
      exact ⟨opcode, rest, rfl, rfl, rfl, hlimit, hop, hparse⟩
    | oversized _ _ => cases he
    | trap _ => cases he

/-! ## Code -/

/-- The bytes of code that more code follows. -/
theorem toList_append_of_append {front rest : List UInt8} (h : code.toList = front ++ rest)
    (extra : Code) : (code ++ extra).toList = front ++ (rest ++ extra.toList) := by
  rw [Array.toList_append, h, List.append_assoc]

/-- An error that the new bytes do not mend is the same error, with these bytes
available. -/
theorem decode_append_of_not_mended (hsize : code.size + extra.size < UInt32.size)
    (h : decode dialect settings code = .error e)
    (hmissing : ∀ missing, e.missing? = some missing → extra.size < missing) :
    decode dialect settings (code ++ extra) = .error (e.grown extra.size) := by
  obtain ⟨front, rest, instructions, hbytes, hcuts, hstuck⟩ :=
    (decode_eq_error_iff (by omega)).1 h
  exact decode_of_stuck (by rwa [Array.size_append]) (toList_append_of_append hbytes extra) hcuts
    (hstuck.append hmissing)

/-- An error for an operand that ends too early is about an opcode; and as many
bytes as are missing make its operand the last one, if its length field was
there. -/
theorem decode_append_of_missing {offset : UInt32} {byte : UInt8} {name : String}
    {needed available : Nat} (hsize : code.size + extra.size < UInt32.size)
    (h : decode dialect settings code =
      .error (.truncatedOperand offset byte name needed available)) :
    available < needed ∧ ∃ opcode, dialect.opcode? byte = some opcode ∧ opcode.name = name ∧
      (extra.size = needed - available →
        fieldSize opcode.shape (code.toList.drop (offset.toNat + 1)) ≤ available →
        ∃ before d last, decode dialect settings (code.extract 0 offset.toNat) = .ok before ∧
          decode dialect settings (code ++ extra) = .ok d ∧ d.size = before.size + 1 ∧
          d.instructions.map bare = before.instructions.map bare ++ [last] ∧
          last.offset = offset ∧ last.opcode = opcode) := by
  have hcode : code.size < UInt32.size := by omega
  obtain ⟨front, rest, instructions, hbytes, hcuts, hstuck⟩ := (decode_eq_error_iff hcode).1 h
  obtain ⟨opcode, rest, rfl, rfl, rfl, hlimit, hop, hparse⟩ := hstuck.exists_parse rfl
  have hlen := Code.size_of_append hbytes
  have hoffset : (UInt32.ofNat front.length).toNat = front.length :=
    UInt32.toNat_ofNat_of_lt' (by omega)
  have hdrop : code.toList.drop (front.length + 1) = rest :=
    Code.drop_succ_of_drop (by rw [hbytes, List.drop_left])
  obtain ⟨-, -, hlt, -⟩ := Operand.parse_eq_truncated_iff.1 hparse
  refine ⟨hlt, opcode, hop, rfl, fun hextra hfield => ?_⟩
  rw [hoffset] at hfield ⊢
  rw [hdrop] at hfield
  obtain ⟨operand, hfits, hwritten⟩ :=
    Operand.exists_fits_of_missing hparse hfield (show extra.toList.length = _ from hextra)
  -- the bytes that were stuck and the new ones are one more instruction, and the last
  have hlast : Cuts dialect settings front.length instructions.length _ _ :=
    .single hlimit hop hfits
  have hwhole := hcuts.append (by simpa only [Nat.zero_add] using hlast)
  rw [hwritten, ← List.cons_append, ← toList_append_of_append hbytes extra] at hwhole
  refine ⟨_, _, ⟨instructions.length, UInt32.ofNat front.length, opcode, operand, none, none⟩,
    decode_extract_of_cuts (by omega) hbytes hcuts,
    decode_of_cuts (by rwa [Array.size_append]) hwhole, ?_, ?_, rfl, rfl⟩
  · rw [size_finish, size_finish, List.length_append, List.length_singleton]
  · rw [map_bare_finish, map_bare_finish, List.map_append]
    rfl

/-- **What an error becomes when more code follows.** An unknown opcode and the
limit on instructions stay as they are. An operand that ends beyond any
position has more bytes available. One that ends too early lacks some: fewer
bytes than these leave the error as it is, but for the bytes available; and
exactly as many make the operand the last one of code that can be decoded, if
its length field was in the code already. -/
theorem decode_append_of_error (dialect : Dialect) (settings : Settings) {code extra : Code}
    (hsize : code.size + extra.size < UInt32.size) :
    (∀ offset byte, decode dialect settings code = .error (.unknownOpCode offset byte) →
      decode dialect settings (code ++ extra) = .error (.unknownOpCode offset byte)) ∧
    (∀ limit, decode dialect settings code = .error (.instructionLimit limit) →
      decode dialect settings (code ++ extra) = .error (.instructionLimit limit)) ∧
    (∀ offset byte name declared available,
      decode dialect settings code =
        .error (.oversizedOperand offset byte name declared available) →
      decode dialect settings (code ++ extra) =
        .error (.oversizedOperand offset byte name declared (available + extra.size))) ∧
    ∀ offset byte name needed available,
      decode dialect settings code =
        .error (.truncatedOperand offset byte name needed available) →
      available < needed ∧
      (extra.size < needed - available →
        decode dialect settings (code ++ extra) =
          .error (.truncatedOperand offset byte name needed (available + extra.size))) ∧
      ∃ opcode, dialect.opcode? byte = some opcode ∧ opcode.name = name ∧
        (extra.size = needed - available →
          fieldSize opcode.shape (code.toList.drop (offset.toNat + 1)) ≤ available →
          ∃ before d last, decode dialect settings (code.extract 0 offset.toNat) = .ok before ∧
            decode dialect settings (code ++ extra) = .ok d ∧ d.size = before.size + 1 ∧
            d.instructions.map bare = before.instructions.map bare ++ [last] ∧
            last.offset = offset ∧ last.opcode = opcode) := by
  refine ⟨?_, ?_, ?_, ?_⟩
  · intro offset byte h
    exact decode_append_of_not_mended hsize h (by rintro _ ⟨⟩)
  · intro limit h
    exact decode_append_of_not_mended hsize h (by rintro _ ⟨⟩)
  · intro offset byte name declared available h
    exact decode_append_of_not_mended hsize h (by rintro _ ⟨⟩)
  · intro offset byte name needed available h
    obtain ⟨hlt, hopcode⟩ := decode_append_of_missing hsize h
    refine ⟨hlt, fun hextra => decode_append_of_not_mended hsize h ?_, hopcode⟩
    rintro _ ⟨⟩
    exact hextra

/-- Of the three bytes that a count announces one is there: one more is not
enough, two are. -/
theorem decode_append_of_error_varDialect :
    decode varDialect {} #[1, 0, 1, 3, 7] = .error (.truncatedOperand 2 1 "VAR" 4 2) ∧
      decode varDialect {} #[1, 0, 1, 3, 7, 8] = .error (.truncatedOperand 2 1 "VAR" 4 3) ∧
      ∃ d, decode varDialect {} #[1, 0, 1, 3, 7, 8, 9] = .ok d ∧ d.size = 2 := by
  have hcuts : Cuts varDialect {} 0 0 [1, 0] _ :=
    @Cuts.single _ _ 0 0 1 _ (some ⟨.varCounted, [0], []⟩) rfl rfl (by decide)
  have hstuck : Stuck varDialect {} 2 1 [1, 3, 7] (.truncatedOperand 2 1 "VAR" 4 2) :=
    @Stuck.operand _ _ 2 1 1 [3, 7] ⟨1, "VAR", "", .varCounted⟩ (.truncated 4 2) rfl rfl rfl
  have herror : decode varDialect {} #[1, 0, 1, 3, 7] =
      .error (.truncatedOperand 2 1 "VAR" 4 2) :=
    decode_of_stuck (by decide) (show _ = [1, 0] ++ [1, 3, 7] from rfl) hcuts hstuck
  obtain ⟨-, hshort, -⟩ :=
    (decode_append_of_error varDialect {} (show (#[1, 0, 1, 3, 7] : Code).size +
      (#[8] : Code).size < UInt32.size by decide)).2.2.2 _ _ _ _ _ herror
  obtain ⟨-, -, opcode, hop, -, hlast⟩ :=
    (decode_append_of_error varDialect {} (show (#[1, 0, 1, 3, 7] : Code).size +
      (#[8, 9] : Code).size < UInt32.size by decide)).2.2.2 _ _ _ _ _ herror
  obtain rfl : (⟨1, "VAR", "", .varCounted⟩ : OpCode) = opcode := Option.some.inj hop
  obtain ⟨before, d, -, hbefore, hd, hsize, -⟩ := hlast rfl (by decide)
  have hone := decode_extract_of_cuts (by decide)
    (show (#[1, 0, 1, 3, 7] : Code).toList = [1, 0] ++ [1, 3, 7] from rfl) hcuts
  obtain rfl : _ = before := Except.ok.inj (hone.symm.trans hbefore)
  rw [size_finish] at hsize
  exact ⟨herror, hshort (by decide), d, hd, hsize⟩

end Disasm
