import Disasm.Proofs.ListFacts
import Disasm.Text.Hex
/-!
# Reading hexadecimal text back

What is written in hexadecimal digits can be read again. `numberOf` reads a
row of digits, in which a blank counts as nothing, so neither the zeros nor
the blanks that a number is padded with matter: no two offsets look alike in a
listing, however many digits they take (`column_injective`), and no two targets
in a comment, whose digits are in upper case (`upperNumeral_injective`). And no
two byte strings do (`ofBytes_injective`), since a byte always takes two digits.
-/

namespace Disasm

namespace Hex

/-- The digits, in order of their values. -/
def digits : List Char :=
  ['0', '1', '2', '3', '4', '5', '6', '7', '8', '9', 'a', 'b', 'c', 'd', 'e', 'f']

/-- The value of a digit; a blank counts as nothing. -/
def digitValue (c : Char) : Nat :=
  if c = ' ' then 0 else digits.idxOf c

/-- The number that a row of digits stands for. -/
def numberOf (text : List Char) : Nat :=
  text.foldl (fun n c => 16 * n + digitValue c) 0

/-! ## Digits -/

theorem digitValue_digitChar : ∀ n < 16, digitValue (Nat.digitChar n) = n := by
  decide

theorem digitChar_mem_digits : ∀ n < 16, Nat.digitChar n ∈ digits := by
  decide

/-- A number is written in digits. -/
theorem mem_digits_of_mem_toDigits (n : Nat) : ∀ c ∈ Nat.toDigits 16 n, c ∈ digits := by
  induction n using Nat.strongRecOn with
  | ind n ih =>
    rw [Nat.toDigits_eq_if (by decide)]
    split_ifs with hsmall
    · simpa using digitChar_mem_digits n hsmall
    · intro c hc
      rcases List.mem_append.1 hc with hc | hc
      · exact ih (n / 16) (by omega) c hc
      · rw [List.mem_singleton.1 hc]
        exact digitChar_mem_digits _ (Nat.mod_lt _ (by decide))

/-! ## Numbers -/

/-- The digits of a number stand for it. -/
theorem numberOf_toDigits (n : Nat) : numberOf (Nat.toDigits 16 n) = n := by
  induction n using Nat.strongRecOn with
  | ind n ih =>
    rw [Nat.toDigits_eq_if (by decide)]
    split_ifs with hsmall
    · simpa [numberOf] using digitValue_digitChar n hsmall
    · have hfront := ih (n / 16) (by omega)
      rw [numberOf] at hfront ⊢
      rw [List.foldl_append, hfront, List.foldl_cons, List.foldl_nil,
        digitValue_digitChar _ (Nat.mod_lt _ (by decide))]
      omega

/-- Padding with what counts as nothing leaves the number. -/
theorem numberOf_leftpad {c : Char} (h : digitValue c = 0) (width : Nat) (text : List Char) :
    numberOf (text.leftpad width c) = numberOf text := by
  have key : ∀ k, (List.replicate k c).foldl (fun n c => 16 * n + digitValue c) 0 = 0 := by
    intro k
    induction k with
    | zero => rfl
    | succ k ih => rw [List.replicate_succ', List.foldl_append, ih, List.foldl_cons, h]; rfl
  rw [List.leftpad, numberOf, List.foldl_append, key, numberOf]

theorem toList_numeral (width n : Nat) :
    (numeral width n).toList = (Nat.toDigits 16 n).leftpad width '0' :=
  String.toList_ofList

theorem toList_column (offset : Nat) :
    (column offset).toList = ((Nat.toDigits 16 offset).leftpad 2 '0').leftpad 4 ' ' := by
  rw [column, String.toList_ofList, toList_numeral]

/-- **A padded number is read back**, however wide it is. -/
theorem numberOf_numeral (width n : Nat) : numberOf (numeral width n).toList = n := by
  rw [toList_numeral, numberOf_leftpad rfl, numberOf_toDigits]

/-- **No two offsets look alike.** -/
theorem column_injective : Function.Injective column := by
  intro offset offset' h
  have hread : ∀ offset, numberOf (column offset).toList = offset := by
    intro offset
    rw [column, String.toList_ofList, numberOf_leftpad rfl, numberOf_numeral]
  rw [← hread offset, h, hread]

theorem toLower_toUpper_of_mem_digits {c : Char} (h : c ∈ digits) : c.toUpper.toLower = c := by
  have hall : digits.all (fun c => c.toUpper.toLower == c) = true := by decide
  exact eq_of_beq (List.all_eq_true.1 hall c h)

/-- A number in upper case is the same in lower case as one written so. -/
theorem map_toLower_upperNumeral (width n : Nat) :
    (upperNumeral width n).toList.map Char.toLower = (numeral width n).toList := by
  have hdigits : ((Nat.toDigits 16 n).map Char.toUpper).map Char.toLower = Nat.toDigits 16 n := by
    rw [List.map_map]
    conv_rhs => rw [← List.map_id (Nat.toDigits 16 n)]
    exact List.map_congr_left fun c hc =>
      toLower_toUpper_of_mem_digits (mem_digits_of_mem_toDigits n c hc)
  rw [upperNumeral, String.toList_ofList, List.map_leftpad, hdigits, toList_numeral]
  rfl

/-- **And no two numbers in upper case do.** -/
theorem upperNumeral_injective (width : Nat) : Function.Injective (upperNumeral width) := by
  intro n n' h
  rw [← numberOf_numeral width n, ← map_toLower_upperNumeral, h, map_toLower_upperNumeral,
    numberOf_numeral]

theorem mem_column {c : Char} {offset : Nat} (h : c ∈ (column offset).toList) :
    c = ' ' ∨ c ∈ digits := by
  rw [toList_column] at h
  rcases List.eq_or_mem_of_mem_leftpad h with h | h
  · exact .inl h
  · rcases List.eq_or_mem_of_mem_leftpad h with rfl | h
    · exact .inr (by decide)
    · exact .inr (mem_digits_of_mem_toDigits offset c h)

theorem mem_upperNumeral {c : Char} {width n : Nat} (h : c ∈ (upperNumeral width n).toList) :
    c ∈ digits.map Char.toUpper := by
  rw [upperNumeral, String.toList_ofList] at h
  rcases List.eq_or_mem_of_mem_leftpad h with rfl | h
  · decide
  · obtain ⟨digit, hdigit, rfl⟩ := List.mem_map.1 h
    exact List.mem_map_of_mem (mem_digits_of_mem_toDigits n digit hdigit)

/-! ## Bytes -/

theorem digitValue_high (b : UInt8) : digitValue (Nat.digitChar (b.toNat / 16)) = b.toNat / 16 := by
  have hlt : b.toNat < 256 := b.toNat_lt
  exact digitValue_digitChar _ (by omega)

theorem digitValue_low (b : UInt8) : digitValue (Nat.digitChar (b.toNat % 16)) = b.toNat % 16 :=
  digitValue_digitChar _ (Nat.mod_lt _ (by decide))

theorem pair_injective : Function.Injective pair := by
  intro b b' h
  simp only [pair, List.cons.injEq, and_true] at h
  have hhigh := congrArg digitValue h.1
  have hlow := congrArg digitValue h.2
  rw [digitValue_high, digitValue_high] at hhigh
  rw [digitValue_low, digitValue_low] at hlow
  exact UInt8.toNat_inj.1 (by omega)

/-- **No two byte strings look alike.** -/
theorem ofBytes_injective : Function.Injective ofBytes := by
  intro bytes bytes' h
  replace h : bytes.flatMap pair = bytes'.flatMap pair := String.ofList_injective h
  induction bytes generalizing bytes' with
  | nil =>
    cases bytes' with
    | nil => rfl
    | cons b' bytes' => cases h
  | cons b bytes ih =>
    cases bytes' with
    | nil => cases h
    | cons b' bytes' =>
      rw [List.flatMap_cons, List.flatMap_cons] at h
      obtain ⟨hpair, hrest⟩ := List.append_inj h rfl
      rw [pair_injective hpair, ih hrest]

theorem mem_ofBytes {c : Char} {bytes : List UInt8} (h : c ∈ (ofBytes bytes).toList) :
    c ∈ digits := by
  rw [ofBytes, String.toList_ofList] at h
  obtain ⟨b, -, hc⟩ := List.mem_flatMap.1 h
  have hlt : b.toNat < 256 := b.toNat_lt
  simp only [pair, List.mem_cons, List.not_mem_nil, or_false] at hc
  rcases hc with rfl | rfl
  · exact digitChar_mem_digits _ (by omega)
  · exact digitChar_mem_digits _ (Nat.mod_lt _ (by decide))

end Hex

end Disasm
