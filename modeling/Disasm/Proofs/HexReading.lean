import Disasm.Proofs.HexText
import Mathlib.Data.List.TakeWhile
/-!
# Reading byte strings

`Denotes` says what a run of digits stands for: two of them for each byte, in
either case, the high one first. Such a run is read as what it stands for
(`decodeDigits_of_denotes`), whatever is collected on the way
(`Denotes.join_eq`). The digits in which a byte string is written stand for
it, and with a marker before them they are a text that decodes to it
(`decode_marked`).
-/

namespace Disasm

namespace Text

/-- A text without blanks has none to be trimmed off. -/
theorem trim_of_forall_not_isBlank {text : List Char} (h : ∀ c ∈ text, ¬ isBlank c) :
    trim text = text := by
  have hkeep : ∀ text : List Char, (∀ c ∈ text, ¬ isBlank c) → text.dropWhile isBlank = text := by
    intro text h
    exact List.dropWhile_eq_self_iff.2 fun _ => h _ (List.getElem_mem _)
  have hback : ∀ c ∈ text.reverse, ¬ isBlank c := by
    intro c hc
    exact h c (List.mem_reverse.1 hc)
  rw [trim, hkeep text h, hkeep _ hback, List.reverse_reverse]

end Text

namespace Hex

/-- **Digits stand for a byte string**: two for each byte, the high one first. A
digit is given as the byte of its character. -/
inductive Denotes : (digits bytes : List UInt8) → Prop
  | nil : Denotes [] []
  | cons {high low highValue lowValue : UInt8} {digits bytes : List UInt8} :
    digit? high = some highValue → digit? low = some lowValue → Denotes digits bytes →
    Denotes (high :: low :: digits) ((16 * highValue + lowValue) :: bytes)

namespace Denotes

variable {digits bytes : List UInt8}

theorem length_eq (h : Denotes digits bytes) : digits.length = 2 * bytes.length := by
  induction h with
  | nil => rfl
  | cons _ _ _ ih =>
    simp only [List.length_cons, ih]
    omega

theorem digit?_isSome (h : Denotes digits bytes) : ∀ b ∈ digits, (digit? b).isSome := by
  induction h with
  | nil => simp
  | cons hhigh hlow _ ih =>
    simp only [List.forall_mem_cons, hhigh, hlow]
    exact ⟨rfl, rfl, ih⟩

/-- Their values, taken two at a time, are the bytes. -/
theorem join_eq (h : Denotes digits bytes) (done : Array UInt8) :
    join done (digits.filterMap digit?) = done ++ bytes.toArray := by
  induction h generalizing done with
  | nil => simp [join]
  | cons hhigh hlow _ ih =>
    rw [List.filterMap_cons_some hhigh, List.filterMap_cons_some hlow, join, ih]
    simp

end Denotes

/-- **Digits are read as what they stand for.** -/
theorem decodeDigits_of_denotes {digits bytes : List UInt8} (h : Denotes digits bytes) :
    decodeDigits digits = .ok bytes.toArray := by
  have heven : ¬ digits.length % 2 = 1 := by
    rw [h.length_eq]
    omega
  have hdigits : (digits.findIdx? fun b => (digit? b).isNone) = none := by
    rw [List.findIdx?_eq_none_iff]
    intro b hb
    rw [Option.isNone_eq_false_iff]
    exact h.digit?_isSome b hb
  rw [decodeDigits, if_neg heven, hdigits]
  simp only [h.join_eq, Array.empty_append]

/-! ## What is written -/

/-- A digit is one byte, which has the value of the digit. -/
theorem map_digit?_digitChar : ∀ n < 16,
    (String.utf8EncodeChar (Nat.digitChar n)).map digit? = [some (UInt8.ofNat n)] := by
  decide

theorem exists_byte_of_digitChar {n : Nat} (h : n < 16) :
    ∃ b, String.utf8EncodeChar (Nat.digitChar n) = [b] ∧ digit? b = some (UInt8.ofNat n) := by
  simpa [List.map_eq_singleton_iff] using map_digit?_digitChar n h

/-- A byte is made of its two halves. -/
theorem ofNat_halves (b : UInt8) :
    16 * UInt8.ofNat (b.toNat / 16) + UInt8.ofNat (b.toNat % 16) = b := by
  have hlt : b.toNat < 256 := b.toNat_lt
  refine UInt8.toNat_inj.1 ?_
  simp only [UInt8.toNat_add, UInt8.toNat_mul, UInt8.toNat_ofNat', UInt8.toNat_ofNat]
  omega

/-- The digits in which bytes are written stand for them. -/
theorem denotes_pairs (bytes : List UInt8) :
    Denotes ((bytes.flatMap pair).flatMap String.utf8EncodeChar) bytes := by
  induction bytes with
  | nil => exact .nil
  | cons b bytes ih =>
    have hlt : b.toNat < 256 := b.toNat_lt
    obtain ⟨high, hhigh, hhighValue⟩ := exists_byte_of_digitChar (n := b.toNat / 16) (by omega)
    obtain ⟨low, hlow, hlowValue⟩ :=
      exists_byte_of_digitChar (n := b.toNat % 16) (Nat.mod_lt _ (by decide))
    have hcons := Denotes.cons hhighValue hlowValue ih
    rw [ofNat_halves] at hcons
    simpa [pair, hhigh, hlow] using hcons

/-- A digit is no blank. -/
theorem not_isBlank_of_mem_digits : ∀ c ∈ digits, ¬ Text.isBlank c := by
  have hnone : digits.any Text.isBlank = false := by decide
  rwa [List.any_eq_false] at hnone

/-- **What is written is read again**: a byte string in lower-case digits, with a
marker before them. -/
theorem decode_marked (bytes : List UInt8) :
    decode ("0x" ++ ofBytes bytes) = .ok bytes.toArray := by
  have htext : ("0x" ++ ofBytes bytes).toList = '0' :: 'x' :: bytes.flatMap pair := by
    simp [ofBytes]
  have hblank : ∀ c ∈ '0' :: 'x' :: bytes.flatMap pair, ¬ Text.isBlank c := by
    rw [List.forall_mem_cons, List.forall_mem_cons]
    refine ⟨by decide, by decide, fun c hc => not_isBlank_of_mem_digits c ?_⟩
    have hmem : c ∈ (ofBytes bytes).toList := by rwa [ofBytes, String.toList_ofList]
    exact mem_ofBytes hmem
  rw [decode, htext, Text.trim_of_forall_not_isBlank hblank, dropMarker,
    decodeDigits_of_denotes (denotes_pairs bytes)]

end Hex

end Disasm
