import Disasm.Proofs.Bytes
import Mathlib.Algebra.BigOperators.Fin
import Mathlib.Data.Int.ModEq
/-!
# Payloads as numbers

A payload of one, two, four or eight bytes can be viewed as an unsigned or as
a signed number. The views go by positional values, and the readers of length
fields by a register that is filled byte by byte; `typed_views_agree` says
that the two come to the same number, and what that number is: the sum of the
bytes times powers of 256. Nothing of the payload is lost in it, since a field
can be written again from its number (`bytes_word`).
-/

namespace Disasm

namespace LittleEndian

/-- The value of a field is the sum of its bytes, each times its power of
256. -/
theorem value_eq_sum (field : List UInt8) :
    value field = ∑ i : Fin field.length, (field.get i).toNat * 256 ^ i.val := by
  induction field with
  | nil => rfl
  | cons b rest ih =>
    -- all bytes but the first stand one place further on
    have hrest : ∑ i : Fin rest.length, (rest.get i).toNat * 256 ^ (i.val + 1) =
        256 * ∑ i : Fin rest.length, (rest.get i).toNat * 256 ^ i.val := by
      rw [Finset.mul_sum]
      refine Finset.sum_congr rfl fun i _ => ?_
      ring
    calc value (b :: rest) = b.toNat + 256 * value rest := rfl
      _ = b.toNat * 256 ^ 0 + ∑ i : Fin rest.length, (rest.get i).toNat * 256 ^ (i.val + 1) := by
        rw [hrest, ← ih, pow_zero, mul_one]
      _ = ∑ i : Fin (b :: rest).length, ((b :: rest).get i).toNat * 256 ^ i.val :=
        (Fin.sum_univ_succ fun i : Fin (rest.length + 1) =>
          ((b :: rest).get i).toNat * 256 ^ i.val).symm

/-! ## Registers -/

/-- What a register reads in a field is written as that field. -/
theorem bytes_word {field : List UInt8} (h : field.length ≤ 8) :
    bytes field.length (word field).toNat = field := by
  rw [toNat_word h, bytes_value]

/-- And what is written of a number is read as that number. -/
theorem toNat_word_bytes {width n : Nat} (hwidth : width ≤ 8) (h : n < 256 ^ width) :
    (word (bytes width n)).toNat = n := by
  rw [toNat_word (by rwa [length_bytes]), value_bytes h]

/-! ## Signed values -/

/-- Half of the numbers of some bytes are negative. -/
theorem two_mul_half {width : Nat} (h : 0 < width) : 2 * 2 ^ (8 * width - 1) = 2 ^ (8 * width) := by
  rw [← pow_succ']
  congr 1
  omega

/-- The signed value is in the range of its width. -/
theorem signed_mem_range {field : List UInt8} (h : 0 < field.length) :
    -2 ^ (8 * field.length - 1) ≤ signed field ∧ signed field < 2 ^ (8 * field.length - 1) := by
  have hcount : 0 < 2 ^ (8 * field.length) := Nat.two_pow_pos _
  have hlow := @Int.le_bmod (value field) (2 ^ (8 * field.length)) hcount
  have hhigh := @Int.bmod_lt (value field) (2 ^ (8 * field.length)) hcount
  rw [signed, Nat.one_shiftLeft]
  rw [← two_mul_half h] at hlow hhigh ⊢
  push_cast at hlow hhigh ⊢
  omega

/-- And it is the value, but for a multiple of the number of fields of its
width. -/
theorem signed_modEq (field : List UInt8) :
    signed field ≡ value field [ZMOD 2 ^ (8 * field.length)] := by
  rw [signed, Nat.one_shiftLeft]
  have hmod := @Int.bmod_emod (value field) (2 ^ (8 * field.length))
  push_cast at hmod
  exact hmod

end LittleEndian

namespace Operand

open LittleEndian (value word bytes)

variable {operand : Operand} {width : Nat}

/-! ## When there is a view -/

theorem exactly_of_length (h : operand.payload.length = width) :
    operand.exactly width = .ok operand.payload :=
  if_pos h

theorem exactly_of_length_ne (h : operand.payload.length ≠ width) :
    operand.exactly width = .error ⟨width, operand.payload.length⟩ :=
  if_neg h

/-- **A view fails exactly if the payload has another width**, whatever is made
of the payload. -/
theorem map_exactly_eq_error_iff {α : Type} (f : List UInt8 → α) (e : WidthMismatch) :
    (operand.exactly width).map f = .error e ↔
      operand.payload.length ≠ width ∧ e = ⟨width, operand.payload.length⟩ := by
  by_cases h : operand.payload.length = width
  · rw [exactly_of_length h]
    simp [Except.map, h]
  · rw [exactly_of_length_ne h]
    simp [Except.map, h, eq_comm]

theorem unsigned_of_length (h : operand.payload.length = width) :
    operand.unsigned width = .ok (value operand.payload) := by
  rw [unsigned, exactly_of_length h]
  rfl

theorem signed_of_length (h : operand.payload.length = width) :
    operand.signed width = .ok (LittleEndian.signed operand.payload) := by
  rw [signed, exactly_of_length h]
  rfl

/-- **The unsigned view determines the payload.** -/
theorem payload_eq_of_unsigned {other : Operand} {n : Nat} (h : operand.unsigned width = .ok n)
    (hother : other.unsigned width = .ok n) : operand.payload = other.payload := by
  have hpayload : ∀ operand : Operand, operand.unsigned width = .ok n →
      operand.payload = bytes width n := by
    intro operand h
    by_cases hlength : operand.payload.length = width
    · rw [unsigned_of_length hlength] at h
      rw [← Except.ok.inj h, ← hlength, LittleEndian.bytes_value]
    · rw [unsigned, exactly_of_length_ne hlength] at h
      cases h
  rw [hpayload operand h, hpayload other hother]

/-- **The views of a payload and the reader of length fields agree.** A view of
one, two, four or eight bytes fails exactly if the payload has another number
of bytes, and names both. Otherwise the unsigned view is the number that the
reader of length fields finds: the sum of the bytes times powers of 256, below
the number of payloads of that width, and no other payload has it. The signed
view is that number, moved by a multiple of the number of payloads into the
range of signed numbers. On fields of at most eight bytes, the reader and the
writing of a number in so many bytes undo each other. -/
theorem typed_views_agree (operand : Operand) (hwidth : width ∈ [1, 2, 4, 8]) :
    let payload := operand.payload
    let n := (word payload).toNat
    (∀ e, operand.unsigned width = .error e ↔
      payload.length ≠ width ∧ e = ⟨width, payload.length⟩) ∧
    (∀ e, operand.signed width = .error e ↔
      payload.length ≠ width ∧ e = ⟨width, payload.length⟩) ∧
    (payload.length = width →
      operand.unsigned width = .ok n ∧
      n = ∑ i : Fin payload.length, (payload.get i).toNat * 256 ^ i.val ∧
      n < 256 ^ width ∧
      (∀ other : Operand, other.unsigned width = .ok n → other.payload = payload) ∧
      ∃ z, operand.signed width = .ok z ∧
        -2 ^ (8 * width - 1) ≤ z ∧ z < 2 ^ (8 * width - 1) ∧ z ≡ n [ZMOD 2 ^ (8 * width)]) ∧
    (∀ field : List UInt8, field.length ≤ 8 → bytes field.length (word field).toNat = field) ∧
    (∀ size number, size ≤ 8 → number < 256 ^ size →
      (word (bytes size number)).toNat = number) := by
  intro payload n
  have hpos : 0 < width ∧ width ≤ 8 := by
    simp only [List.mem_cons, List.not_mem_nil, or_false] at hwidth
    omega
  refine ⟨map_exactly_eq_error_iff _, map_exactly_eq_error_iff _, ?_,
    fun _ => LittleEndian.bytes_word, fun _ _ => LittleEndian.toNat_word_bytes⟩
  intro hlength
  have hn : n = value payload := LittleEndian.toNat_word (by omega)
  have hview : operand.unsigned width = .ok n := by rw [hn, unsigned_of_length hlength]
  refine ⟨hview, ?_, ?_, fun other hother => payload_eq_of_unsigned hother hview,
    LittleEndian.signed payload, signed_of_length hlength, ?_⟩
  · rw [hn, LittleEndian.value_eq_sum]
  · rw [hn, ← hlength]
    exact LittleEndian.value_lt payload
  · have hrange := @LittleEndian.signed_mem_range payload (by omega)
    have hmod := LittleEndian.signed_modEq payload
    rw [hlength] at hrange hmod
    rw [hn]
    exact ⟨hrange.1, hrange.2, hmod⟩

/-- Eight bytes with all bits set: the largest number without a sign, and one
below zero with it. Three bytes have no view of two. -/
theorem typed_views_agree_extremes :
    (ofBytes (List.replicate 8 0xff)).unsigned 8 = .ok (2 ^ 64 - 1) ∧
    (ofBytes (List.replicate 8 0xff)).signed 8 = .ok (-1) ∧
    (ofBytes [1, 2, 3]).unsigned 2 = .error ⟨2, 3⟩ := by
  obtain ⟨-, -, hviews, -⟩ :=
    @typed_views_agree 8 (ofBytes (List.replicate 8 0xff)) (by decide)
  obtain ⟨hfails, -⟩ := @typed_views_agree 2 (ofBytes [1, 2, 3]) (by decide)
  obtain ⟨hunsigned, -, -, -, z, hsigned, hlow, hhigh, hmod⟩ := hviews rfl
  have hword : (word (ofBytes (List.replicate 8 0xff)).payload).toNat = 2 ^ 64 - 1 := by decide
  rw [hword] at hunsigned hmod
  refine ⟨hunsigned, ?_, (hfails _).2 ⟨by decide, rfl⟩⟩
  -- the only number of the range that is all ones but for a multiple
  have hz : z = -1 := by
    unfold Int.ModEq at hmod
    norm_num at hlow hhigh hmod
    omega
  rw [hsigned, hz]

end Operand

end Disasm
