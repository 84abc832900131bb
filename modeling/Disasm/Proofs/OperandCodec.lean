import Disasm.Proofs.OperandReading
/-!
# Reading and writing operands undo each other

Writing an operand that was read gives the bytes it was read from
(`slice_of_read`), and reading those bytes gives the operand again, whatever
stands before and after them (`read_written`). So an operand is a matter of its
own bytes: nothing else in the code has a say in it (`codec_is_local`).
-/

namespace Disasm

namespace Operand

variable {shape : Shape} {operand : Operand} {code : Code} {pos consumed : Nat}

/-! ## From operands to code -/

/-- The operand made of a payload can be written. -/
theorem wellFormed_ofBytes {payload : List UInt8} (h : payload.length < UInt64.size) :
    (ofBytes payload).WellFormed :=
  ⟨rfl, (UInt64.toNat_ofNat_of_lt' h).symm⟩

/-- And takes as many bytes as the payload has. -/
theorem size_ofBytes (payload : List UInt8) : (ofBytes payload).size = payload.length :=
  Nat.zero_add _

/-- **What is written is read**, wherever it stands in the code. -/
theorem read_written (h : operand.WellFormed) (before after : List UInt8)
    (hlen : (before ++ operand.encode ++ after).length < UInt64.size) :
    read operand.shape (before ++ operand.encode ++ after).toArray before.length =
      .ok (some operand, operand.size) := by
  have hcode : (before ++ operand.encode ++ after).toArray.size < Position.count := hlen
  have hsize : operand.encode.length < Position.count := by
    refine lt_of_le_of_lt ?_ hlen
    simp only [List.length_append]
    omega
  have hparse := parse_written (show operand.shape.Fits (some operand) from ⟨rfl, h⟩) hsize after
  rw [show written (some operand) = operand.encode from rfl, length_encode] at hparse
  rw [read_eq_parse (by simp) hcode, List.append_assoc, List.drop_left, hparse]

/-! ## From code to operands -/

/-- Only an operand of fixed size takes no bytes. -/
theorem shape_eq_of_encode_eq_nil (h : operand.WellFormed) (hnil : operand.encode = []) :
    operand.shape = .fixed 0 := by
  obtain ⟨shape, field, payload⟩ := operand
  obtain ⟨rfl, rfl⟩ := List.append_eq_nil_iff.1 hnil
  cases shape with
  | nullary => exact absurd h id
  | fixed size =>
    have hsize : size.toNat = (0 : UInt64).toNat := h.2.symm
    rw [UInt64.toNat_inj.1 hsize]
  | counted width =>
    have hwidth : 0 = width.size := h.1
    cases width <;> cases hwidth
  | varCounted => exact absurd h id

/-- An operand is read inside the code only. -/
theorem le_size_of_read {found : Option Operand} (hcode : code.size < UInt64.size)
    (hpos : pos < UInt64.size) (hshape : shape ≠ .nullary)
    (h : read shape code pos = .ok (found, consumed)) : pos ≤ code.size := by
  by_contra hbeyond
  by_cases hzero : shape = .fixed 0
  · rw [hzero, read_fixed_zero_of_size_lt (by omega) hpos] at h
    cases h
  · rw [read_of_size_lt (by omega) hcode hzero] at h
    obtain ⟨hfits, -, tail, htail⟩ := written_of_parse h
    obtain ⟨hnil, -⟩ := List.append_eq_nil_iff.1 htail.symm
    cases found with
    | none => exact hshape hfits
    | some operand =>
      obtain ⟨rfl, hformed⟩ : operand.shape = shape ∧ operand.WellFormed := hfits
      exact hzero (shape_eq_of_encode_eq_nil hformed hnil)

/-- **What is read was written there**: the operand is of the shape asked for and
can be written, and its bytes are the ones that reading took. -/
theorem slice_of_read {found : Option Operand} (hcode : code.size < UInt64.size)
    (hpos : pos < UInt64.size) (hshape : shape ≠ .nullary)
    (h : read shape code pos = .ok (found, consumed)) :
    ∃ operand, found = some operand ∧ operand.shape = shape ∧ operand.WellFormed ∧
      operand.size = consumed ∧ code.slice pos (pos + consumed) = .ok operand.encode := by
  have hle := le_size_of_read hcode hpos hshape h
  rw [read_eq_parse hle hcode] at h
  obtain ⟨hfits, hconsumed, tail, htail⟩ := written_of_parse h
  cases found with
  | none => exact absurd hfits hshape
  | some operand =>
    obtain ⟨hof, hformed⟩ : operand.shape = shape ∧ operand.WellFormed := hfits
    rw [show written (some operand) = operand.encode from rfl] at hconsumed htail
    have hlen := code.length_drop pos
    rw [htail, List.length_append, ← hconsumed] at hlen
    refine ⟨operand, rfl, hof, hformed, by rw [hconsumed, length_encode], ?_⟩
    rw [Code.slice_of_le (by omega), htail, hconsumed, List.take_left]

/-! ## The codec -/

/-- **The codec of operands is local and undoes itself.** An operand that was
read is written as the stretch of code that reading took, and is as long; and
where those bytes stand between any others, reading gives the same operand and
takes as many bytes. In particular a payload written as an operand of fixed size
is read back. -/
theorem codec_is_local :
    (∀ (shape : Shape) (code : Code) (pos : Nat) (found : Option Operand) (consumed : Nat),
      shape ≠ .nullary → code.size < UInt64.size → pos < UInt64.size →
      read shape code pos = .ok (found, consumed) →
      ∃ operand, found = some operand ∧
        code.slice pos (pos + consumed) = .ok operand.encode ∧ operand.size = consumed ∧
        ∀ before after : List UInt8,
          (before ++ operand.encode ++ after).length < UInt64.size →
          read shape (before ++ operand.encode ++ after).toArray before.length =
            .ok (some operand, consumed)) ∧
    ∀ payload : List UInt8, payload.length < UInt64.size →
      read (.fixed (UInt64.ofNat payload.length)) (ofBytes payload).encode.toArray 0 =
        .ok (some (ofBytes payload), payload.length) := by
  constructor
  · intro shape code pos found consumed hshape hcode hpos h
    obtain ⟨operand, hfound, rfl, hformed, rfl, hslice⟩ := slice_of_read hcode hpos hshape h
    exact ⟨operand, hfound, hslice, rfl, read_written hformed⟩
  · intro payload hlen
    have hread := read_written (wellFormed_ofBytes hlen) [] []
      (by rwa [List.nil_append, List.append_nil, length_encode, size_ofBytes])
    rwa [List.nil_append, List.append_nil, size_ofBytes] at hread

/-- A count that is wider than it need be is read again between other bytes,
though each of these could begin a count itself. -/
theorem codec_is_local_varCounted :
    read .varCounted #[0xff, 0xfd, 2, 0, 5, 6, 7] 1 =
      .ok (some ⟨.varCounted, [0xfd, 2, 0], [5, 6]⟩, 5) ∧
    read .varCounted #[0xfe, 0xfe, 0xfd, 2, 0, 5, 6, 0xff] 2 =
      .ok (some ⟨.varCounted, [0xfd, 2, 0], [5, 6]⟩, 5) ∧
    read (.fixed 3) #[1, 2, 3] 0 = .ok (some (ofBytes [1, 2, 3]), 3) := by
  have hread : read .varCounted #[0xff, 0xfd, 2, 0, 5, 6, 7] 1 =
      .ok (some ⟨.varCounted, [0xfd, 2, 0], [5, 6]⟩, 5) := rfl
  obtain ⟨operand, hfound, -, -, hlocal⟩ :=
    codec_is_local.1 _ _ _ _ _ (by decide) (by decide) (by decide) hread
  obtain rfl := Option.some.inj hfound
  exact ⟨hread, hlocal [0xfe, 0xfe] [0xff] (by decide), codec_is_local.2 [1, 2, 3] (by decide)⟩

end Operand

end Disasm
