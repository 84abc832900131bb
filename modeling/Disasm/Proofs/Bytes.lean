import Disasm.Bytes.LittleEndian
import Disasm.DecodeError
import Mathlib.Tactic.Ring
/-!
# What access to code gives

Inside the code every access of `Disasm.Bytes.Code` gives its answer, and the
answer is a piece of the list of bytes from the position on. The readers are
sequences of such accesses, so the module begins with how a sequence goes on
after an answer. A register that takes in at most eight bytes loses none of
them: `toNat_word` makes it the positional value of the field.
-/

namespace Disasm

/-! ## Sequences of accesses -/

namespace Access

variable {α β ε ε' : Type}

@[simp] theorem ok_bind (a : α) (f : α → Except ε β) : (Except.ok a >>= f) = f a := rfl

@[simp] theorem error_bind (e : ε) (f : α → Except ε β) : (Except.error e >>= f) = .error e := rfl

@[simp] theorem mapError_ok (f : ε → ε') (a : α) : (Except.ok a).mapError f = .ok a := rfl

@[simp] theorem mapError_error (f : ε → ε') (e : ε) :
    (Except.error e : Except ε α).mapError f = .error (f e) := rfl

@[simp] theorem pure_eq_ok (a : α) : (pure a : Except ε α) = .ok a := rfl

@[simp] theorem throw_eq_error (e : ε) : (throw e : Except ε α) = .error e := rfl

/-- An access that gives its answer gives it to a reader of operands. -/
@[simp] theorem lift_ok_read (a : α) :
    (liftM (Except.ok a : Except Trap α) : Except ReadError α) = .ok a := rfl

/-- And to a decoder. -/
@[simp] theorem lift_ok_decode (a : α) :
    (liftM (Except.ok a : Except Trap α) : Except DecodeError α) = .ok a := rfl

end Access

/-! ## Positions and slices -/

theorem Position.add_of_lt {left right : Nat} (h : left + right < count) :
    add left right = .ok (left + right) :=
  if_pos h

theorem Position.sub_of_le {left right : Nat} (h : right ≤ left) :
    sub left right = .ok (left - right) :=
  if_pos h

namespace Code

variable {code : Code} {pos : Nat}

/-- The first byte from a position on is the byte there. -/
theorem byteAt_of_drop {byte : UInt8} {rest : List UInt8}
    (h : code.toList.drop pos = byte :: rest) : code.byteAt pos = .ok byte := by
  have hget : code.toList[pos]? = some byte := by
    rw [← Nat.add_zero pos, ← List.getElem?_drop, h]
    rfl
  obtain ⟨hpos, heq⟩ := List.getElem?_eq_some_iff.1 hget
  rw [byteAt, dif_pos (by simpa using hpos)]
  exact congrArg Except.ok (by simpa using heq)

/-- After the first byte from a position on come those from the next one
on. -/
theorem drop_succ_of_drop {byte : UInt8} {rest : List UInt8}
    (h : code.toList.drop pos = byte :: rest) : code.toList.drop (pos + 1) = rest := by
  rw [← List.drop_drop, h, List.drop_succ_cons, List.drop_zero]

/-- As many bytes are left at a position as the code has from there on. -/
theorem length_drop (code : Code) (pos : Nat) :
    (code.toList.drop pos).length = code.size - pos := by
  rw [List.length_drop, Array.length_toList]

/-- The size of code that is given in two parts. -/
theorem size_of_append {front rest : List UInt8} (h : code.toList = front ++ rest) :
    code.size = front.length + rest.length := by
  rw [← Array.length_toList, h, List.length_append]

/-- A first part of the code is its first bytes. -/
theorem toList_extract_zero (code : Code) (stop : Nat) :
    (code.extract 0 stop).toList = code.toList.take stop := by
  rw [Array.toList_extract, List.extract_eq_take_drop, List.drop_zero, Nat.sub_zero]

/-- Any stretch of it is the beginning of what comes from its start on. -/
theorem toList_extract_add (code : Code) (pos size : Nat) :
    (code.extract pos (pos + size)).toList = (code.toList.drop pos).take size := by
  rw [Array.toList_extract, List.extract_eq_take_drop, Nat.add_sub_cancel_left]

/-- The byte at a position is the first from there on. -/
theorem head?_drop (code : Code) (pos : Nat) : (code.toList.drop pos).head? = code[pos]? := by
  rw [List.head?_drop, Array.getElem?_toList]

/-- A slice inside the code is a stretch of the bytes from its start on. -/
theorem slice_of_le {size : Nat} (h : pos + size ≤ code.size) :
    code.slice pos (pos + size) = .ok ((code.toList.drop pos).take size) := by
  rw [slice, if_pos ⟨Nat.le_add_right _ _, h⟩]
  simp [List.take_drop]

end Code

/-! ## Registers -/

namespace LittleEndian

/-- The value of a field is below the number of fields of its length. -/
theorem value_lt (field : List UInt8) : value field < 256 ^ field.length := by
  induction field with
  | nil => simp [value]
  | cons b rest ih =>
    have hb : b.toNat < 256 := b.toNat_lt
    rw [value, List.length_cons, pow_succ]
    omega

/-- A field is written again from the number it stands for. -/
theorem bytes_value (field : List UInt8) : bytes field.length (value field) = field := by
  induction field with
  | nil => rfl
  | cons b rest ih =>
    have hb : b.toNat < 256 := b.toNat_lt
    have hlow : (b.toNat + 256 * value rest) % 256 = b.toNat := by omega
    have hhigh : (b.toNat + 256 * value rest) / 256 = value rest := by omega
    rw [value, List.length_cons, bytes, hlow, hhigh, ih, UInt8.ofNat_toNat]

/-- And a number that fits is read again from its field. -/
theorem value_bytes {width n : Nat} (h : n < 256 ^ width) : value (bytes width n) = n := by
  induction width generalizing n with
  | zero =>
    rw [pow_zero] at h
    rw [bytes, value]
    omega
  | succ width ih =>
    rw [pow_succ] at h
    have hrest : value (bytes width (n / 256)) = n / 256 := ih (by omega)
    have hbyte : (UInt8.ofNat (n % 256)).toNat = n % 256 :=
      UInt8.toNat_ofNat_of_lt' (Nat.mod_lt n (by decide))
    rw [bytes, value, hrest, hbyte]
    omega

/-- A register with its top byte free takes a byte in as its lowest digit. -/
theorem toNat_shift_or {register : UInt64} (b : UInt8) (h : register.toNat < 2 ^ 56) :
    ((register <<< 8) ||| b.toUInt64).toNat = b.toNat + 256 * register.toNat := by
  have hb : b.toNat < 2 ^ 8 := b.toNat_lt
  have hshift : register.toNat <<< 8 % 2 ^ 64 = 2 ^ 8 * register.toNat := by
    rw [Nat.shiftLeft_eq, Nat.mod_eq_of_lt (by omega), Nat.mul_comm]
  have hsum := Nat.two_pow_add_eq_or_of_lt hb register.toNat
  simp only [UInt64.toNat_or, UInt64.toNat_shiftLeft, UInt8.toNat_toUInt64]
  rw [show (8 : UInt64).toNat % 64 = 8 from rfl, hshift, ← hsum]
  omega

/-- **A register loses nothing of a field of at most eight bytes.** -/
theorem toNat_word {field : List UInt8} (h : field.length ≤ 8) :
    (word field).toNat = value field := by
  induction field with
  | nil => rfl
  | cons b rest ih =>
    rw [List.length_cons] at h
    have hrest : (word rest).toNat = value rest := ih (by omega)
    -- the bytes after the first fill at most seven, so the shift drops nothing
    have hbound : value rest < 2 ^ 56 :=
      calc value rest < 256 ^ rest.length := value_lt rest
        _ ≤ 256 ^ 7 := Nat.pow_le_pow_right (by decide) (by omega)
        _ = 2 ^ 56 := by norm_num
    calc (word (b :: rest)).toNat = ((word rest <<< 8) ||| b.toUInt64).toNat := rfl
      _ = b.toNat + 256 * (word rest).toNat := toNat_shift_or b (by rw [hrest]; exact hbound)
      _ = value (b :: rest) := by rw [hrest, value]

end LittleEndian

end Disasm
