import Disasm.Proofs.ErrorLocation
import Disasm.Proofs.Tiling
/-!
# The limit on instructions

Whether an instruction is allowed is looked at before its first byte is. So
decoding under a limit goes along with decoding without one for as many
instructions as the limit allows (`Cuts.limitedTo`, `Stuck.limitedTo`), and
where one more would begin it stops, whatever the bytes there are
(`decode_limitedTo_of_length_eq`). The two outcomes are compared in
`decode_limitedTo`.
-/

namespace Disasm

namespace Settings

/-- The settings without a limit on instructions. -/
def unlimited (settings : Settings) : Settings :=
  { settings with maxInstructions := none }

/-- The settings with a limit on instructions. -/
def limitedTo (settings : Settings) (limit : UInt64) : Settings :=
  { settings with maxInstructions := some limit }

theorem atLimit?_unlimited (settings : Settings) (place : Nat) :
    settings.unlimited.atLimit? place = none :=
  atLimit?_of_none rfl place

theorem atLimit?_limitedTo_of_le (settings : Settings) {limit : UInt64} {place : Nat}
    (h : limit.toNat ≤ place) : (settings.limitedTo limit).atLimit? place = some limit :=
  atLimit?_eq_some_iff.2 ⟨rfl, h⟩

theorem atLimit?_limitedTo_of_lt (settings : Settings) {limit : UInt64} {place : Nat}
    (h : place < limit.toNat) : (settings.limitedTo limit).atLimit? place = none := by
  rw [Option.eq_none_iff_forall_ne_some]
  intro other hother
  obtain ⟨hlimit, hle⟩ := atLimit?_eq_some_iff.1 hother
  obtain rfl : limit = other := Option.some.inj hlimit
  omega

end Settings

variable {dialect : Dialect} {settings : Settings} {code : Code} {limit : UInt64}
variable {pos number : Nat} {bytes front rest : List UInt8} {instructions : List Instruction}
variable {e : DecodeError}

/-! ## As far as the limit allows -/

/-- **Instructions that the limit has room for are cut off under it as well.** -/
theorem Cuts.limitedTo (h : Cuts dialect settings.unlimited pos number bytes instructions)
    (hroom : number + instructions.length ≤ limit.toNat) :
    Cuts dialect (settings.limitedTo limit) pos number bytes instructions := by
  induction h with
  | nil => exact .nil _ _
  | cons _ hop hfits _ ih =>
    rw [List.length_cons] at hroom
    exact .cons (settings.atLimit?_limitedTo_of_lt (by omega)) hop hfits (ih (by omega))

/-- And where bytes are stuck, they are stuck for the same reason under a limit
that has room there. -/
theorem Stuck.limitedTo (h : Stuck dialect settings.unlimited pos number bytes e)
    (hroom : number < limit.toNat) :
    Stuck dialect (settings.limitedTo limit) pos number bytes e := by
  have hfree := settings.atLimit?_limitedTo_of_lt hroom
  cases h with
  | limit hlimit =>
    rw [settings.atLimit?_unlimited] at hlimit
    cases hlimit
  | unknown _ hop => exact .unknown hfree hop
  | operand _ hop hparse => exact .operand hfree hop hparse

/-- Without a limit the reason names the offset. -/
theorem Stuck.exists_offset (h : Stuck dialect settings.unlimited pos number bytes e) :
    ∃ offset, e.offset? = some offset := by
  cases h with
  | limit hlimit =>
    rw [settings.atLimit?_unlimited] at hlimit
    cases hlimit
  | unknown _ _ => exact ⟨_, rfl⟩
  | operand _ _ hparse =>
    obtain ⟨needed, rfl⟩ | ⟨declared, rfl⟩ := Operand.available_of_parse hparse
    · exact ⟨_, rfl⟩
    · exact ⟨_, rfl⟩

/-- What is made of the instructions does not depend on the limit. -/
theorem finish_limitedTo (dialect : Dialect) (settings : Settings) (limit : UInt64)
    (instructions : List Instruction) :
    finish dialect (settings.limitedTo limit) instructions =
      finish dialect settings.unlimited instructions := rfl

/-! ## Beyond the limit -/

/-- Where as many instructions as the limit allows are cut off and a byte
follows, decoding stops. -/
theorem decode_limitedTo_of_length_eq {byte : UInt8} (hcode : code.size < UInt32.size)
    (hbytes : code.toList = front ++ byte :: rest)
    (h : Cuts dialect settings.unlimited 0 0 front instructions)
    (hlength : instructions.length = limit.toNat) :
    decode dialect (settings.limitedTo limit) code = .error (.instructionLimit limit) := by
  have hcuts : Cuts dialect (settings.limitedTo limit) 0 0 front instructions :=
    h.limitedTo (by omega)
  exact decode_of_stuck hcode hbytes hcuts
    (.limit (settings.atLimit?_limitedTo_of_le (by omega)))

/-- **So it does where more instructions than that are cut off.** -/
theorem decode_limitedTo_of_lt_length (hcode : code.size < UInt32.size)
    (hbytes : code.toList = front ++ rest)
    (h : Cuts dialect settings.unlimited 0 0 front instructions)
    (hlt : limit.toNat < instructions.length) :
    decode dialect (settings.limitedTo limit) code = .error (.instructionLimit limit) := by
  -- the first instruction that is too many comes after a part that has no more than the limit
  obtain ⟨before, byte, back, rfl, hbefore, -⟩ := h.place (List.getElem?_eq_getElem hlt)
  simp only [List.append_assoc, List.cons_append] at hbytes
  refine decode_limitedTo_of_length_eq hcode hbytes hbefore ?_
  rw [List.length_take]
  omega

/-! ## Two runs -/

/-- **What a limit on instructions does to decoding.** Code that is decoded
without a limit into no more instructions than the limit allows is decoded to
the same under it; where there are more, the limit is the error. An error
without a limit names an offset, and the code before it is decoded to some
number of instructions. The error is the same under a limit that allows more
than these, and otherwise the limit is the error. -/
theorem decode_limitedTo (dialect : Dialect) (settings : Settings) {code : Code}
    (hcode : code.size < UInt32.size) (limit : UInt64) :
    (∀ d, decode dialect settings.unlimited code = .ok d →
      (d.size ≤ limit.toNat → decode dialect (settings.limitedTo limit) code = .ok d) ∧
      (limit.toNat < d.size →
        decode dialect (settings.limitedTo limit) code = .error (.instructionLimit limit))) ∧
    ∀ e, decode dialect settings.unlimited code = .error e →
      ∃ offset before, e.offset? = some offset ∧
        decode dialect settings.unlimited (code.extract 0 offset.toNat) = .ok before ∧
        (before.size < limit.toNat →
          decode dialect (settings.limitedTo limit) code = .error e) ∧
        (limit.toNat ≤ before.size →
          decode dialect (settings.limitedTo limit) code = .error (.instructionLimit limit)) := by
  constructor
  · intro d hd
    obtain ⟨-, instructions, hcuts, rfl⟩ := decode_eq_ok_iff.1 hd
    rw [size_finish]
    constructor
    · intro hle
      have hlimited : Cuts dialect (settings.limitedTo limit) 0 0 code.toList instructions :=
        hcuts.limitedTo (by omega)
      rw [decode_of_cuts hcode hlimited, finish_limitedTo]
    · intro hlt
      exact decode_limitedTo_of_lt_length hcode (List.append_nil _).symm hcuts hlt
  · intro e he
    obtain ⟨front, rest, instructions, hbytes, hcuts, hstuck⟩ := (decode_eq_error_iff hcode).1 he
    obtain ⟨offset, hoffset⟩ := hstuck.exists_offset
    obtain ⟨hplace, -, -⟩ := faultAt_of_stuck hcode hbytes hstuck hoffset
    have hlen := Code.size_of_append hbytes
    have hbefore := decode_extract_of_cuts (by omega) hbytes hcuts
    rw [← hplace] at hbefore
    refine ⟨offset, _, hoffset, hbefore, ?_, ?_⟩
    · rw [size_finish]
      intro hlt
      have hlimited : Cuts dialect (settings.limitedTo limit) 0 0 front instructions :=
        hcuts.limitedTo (by omega)
      exact decode_of_stuck hcode hbytes hlimited (hstuck.limitedTo hlt)
    · rw [size_finish]
      intro hle
      rcases Nat.eq_or_lt_of_le hle with heq | hlt
      · -- the limit is met at the very byte that is at fault
        have hrest := hstuck.length_pos
        obtain ⟨byte, tail, rfl⟩ := List.exists_cons_of_length_pos hrest
        exact decode_limitedTo_of_length_eq hcode hbytes hcuts heq.symm
      · exact decode_limitedTo_of_lt_length hcode hbytes hcuts hlt

/-- The third instruction is an unknown byte: a limit of three lets it be found,
and a limit of two does not. The two instructions before it alone are within
a limit of two, and not within a limit of one. -/
theorem decode_limitedTo_varDialect :
    decode varDialect {} #[1, 0, 1, 0, 9] = .error (.unknownOpCode 4 9) ∧
      decode varDialect { maxInstructions := some 3 } #[1, 0, 1, 0, 9] =
        .error (.unknownOpCode 4 9) ∧
      decode varDialect { maxInstructions := some 2 } #[1, 0, 1, 0, 9] =
        .error (.instructionLimit 2) ∧
      decode varDialect { maxInstructions := some 2 } #[1, 0, 1, 0] =
        decode varDialect {} #[1, 0, 1, 0] ∧
      decode varDialect { maxInstructions := some 1 } #[1, 0, 1, 0] =
        .error (.instructionLimit 1) := by
  have hlast : Cuts varDialect {} 2 1 [1, 0] _ :=
    @Cuts.single _ _ 2 1 1 _ (some ⟨.varCounted, [0], []⟩) rfl rfl (by decide)
  have hcuts : Cuts varDialect {} 0 0 [1, 0, 1, 0] _ :=
    @Cuts.cons _ _ 0 0 1 _ (some ⟨.varCounted, [0], []⟩) [1, 0] _ rfl rfl (by decide) hlast
  have hlong : (#[1, 0, 1, 0, 9] : Code).size < UInt32.size := by decide
  have hshort : (#[1, 0, 1, 0] : Code).size < UInt32.size := by decide
  have herror : decode varDialect {} #[1, 0, 1, 0, 9] = .error (.unknownOpCode 4 9) :=
    decode_of_stuck hlong (show _ = [1, 0, 1, 0] ++ [9] from rfl) hcuts (.unknown rfl rfl)
  have hd : decode varDialect {} #[1, 0, 1, 0] = .ok _ := decode_of_cuts hshort hcuts
  -- the code before the fault is the code of the two instructions
  have hfault : ∀ limit : UInt64,
      ((2 < limit.toNat → decode varDialect { maxInstructions := some limit } #[1, 0, 1, 0, 9] =
        .error (.unknownOpCode 4 9)) ∧
      (limit.toNat ≤ 2 → decode varDialect { maxInstructions := some limit } #[1, 0, 1, 0, 9] =
        .error (.instructionLimit limit))) := by
    intro limit
    obtain ⟨offset, before, hoffset, hbefore, hwithin, hbeyond⟩ :=
      (decode_limitedTo varDialect {} hlong limit).2 _ herror
    obtain rfl : 4 = offset := Option.some.inj hoffset
    obtain rfl : _ = before := Except.ok.inj (hd.symm.trans hbefore)
    rw [size_finish] at hwithin hbeyond
    exact ⟨hwithin, hbeyond⟩
  obtain ⟨hsame, -⟩ := (decode_limitedTo varDialect {} hshort 2).1 _ hd
  obtain ⟨-, hstop⟩ := (decode_limitedTo varDialect {} hshort 1).1 _ hd
  rw [size_finish] at hsame hstop
  exact ⟨herror, (hfault 3).1 (by decide), (hfault 2).2 (by decide),
    (hsame (by decide)).trans hd.symm, hstop (by decide)⟩

end Disasm
