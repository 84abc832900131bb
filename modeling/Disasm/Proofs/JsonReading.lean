import Disasm.Json.Basic
import Disasm.Json.Scalar
import Mathlib.Tactic.SplitIfs
/-!
# Reading JSON text back

What the writer of JSON puts down for a string, a number or a word, the
readers take up again, and they stop where it ended. For strings this needs
nothing of the text that follows, since a quotation mark inside is escaped
(`stringBody_append`). A number has no end of its own, so what follows must be
nothing that could belong to it (`numeral_append`).
-/

namespace Disasm

namespace Json

/-! ## Words -/

theorem word_append (expected rest : List Char) : word expected (expected ++ rest) = .ok rest := by
  induction expected with
  | nil => rfl
  | cons e expected ih => rw [List.cons_append, word, if_pos rfl, ih]

theorem literal_append {α : Type} (expected : List Char) (value : α) (rest : List Char) :
    literal expected value (expected ++ rest) = .ok (value, rest) := by
  rw [literal, word_append]
  rfl

/-! ## Strings -/

/-- The characters between the quotation marks of a string. -/
def escapedChars (s : String) : List Char :=
  s.toList.flatMap fun c => (escapedChar c).toList

theorem toList_stringText (s : String) :
    (stringText s).toList = '"' :: (escapedChars s ++ ['"']) := by
  simp [stringText, escapedChars, List.flatMap_map]

theorem hexValue?_digitChar : ∀ n < 16, hexValue? (Nat.digitChar n) = some n := by
  decide

theorem toList_numeral_control :
    ∀ n < 32, (Hex.numeral 4 n).toList =
      ['0', '0', Nat.digitChar (n / 16), Nat.digitChar (n % 16)] := by
  decide

/-- The four digits of a control character are read as its number. -/
theorem codeUnit_control {n : Nat} (h : n < 32) (rest : List Char) :
    codeUnit ((Hex.numeral 4 n).toList ++ rest) = .ok (n, rest) := by
  have hzero : hexValue? '0' = some 0 := hexValue?_digitChar 0 (by decide)
  have hhigh := hexValue?_digitChar (n / 16) (by omega)
  have hlow := hexValue?_digitChar (n % 16) (by omega)
  have hvalue : ((0 * 16 + 0) * 16 + n / 16) * 16 + n % 16 = n := by omega
  rw [toList_numeral_control n h]
  simp only [List.cons_append, List.nil_append, codeUnit, hzero, hhigh, hlow, hvalue]

/-- A control character is written as an escape that stands for it. -/
theorem unicodeEscape_control {c : Char} (h : c.toNat < 32) (rest : List Char) :
    unicodeEscape ((Hex.numeral 4 c.toNat).toList ++ rest) = .ok (c, rest) := by
  have htrailing : isTrailing c.toNat = false := by
    rw [isTrailing, decide_eq_false (by omega), Bool.false_and]
  have hleading : isLeading c.toNat = false := by
    rw [isLeading, decide_eq_false (by omega), Bool.false_and]
  simp only [unicodeEscape, codeUnit_control h, htrailing, hleading, Bool.false_eq_true, if_false,
    Char.ofNat_toNat]

/-- **A character is written as an escape that stands for it**, or as itself if
it can stand in a string. -/
theorem escapedChar_cases (c : Char) :
    (∃ tail, (escapedChar c).toList = '\\' :: tail ∧
      ∀ rest, escape (tail ++ rest) = .ok (c, rest)) ∨
    ((escapedChar c).toList = [c] ∧ c ≠ '"' ∧ c ≠ '\\' ∧ ¬ c.toNat < 0x20) := by
  have hletter : ∀ {d : Char} (letter : Char), c = d → (escapedChar d).toList = ['\\', letter] →
      (∀ rest, escape (letter :: rest) = .ok (d, rest)) →
      ∃ tail, (escapedChar c).toList = '\\' :: tail ∧
        ∀ rest, escape (tail ++ rest) = .ok (c, rest) := by
    rintro d letter rfl htext hescape
    exact ⟨[letter], htext, hescape⟩
  by_cases hquote : c = '"'
  · exact .inl (hletter '"' hquote rfl fun rest => rfl)
  by_cases hbackslash : c = '\\'
  · exact .inl (hletter '\\' hbackslash rfl fun rest => rfl)
  by_cases hb : c = '\x08'
  · exact .inl (hletter 'b' hb rfl fun rest => rfl)
  by_cases hf : c = '\x0c'
  · exact .inl (hletter 'f' hf rfl fun rest => rfl)
  by_cases hn : c = '\n'
  · exact .inl (hletter 'n' hn rfl fun rest => rfl)
  by_cases hr : c = '\r'
  · exact .inl (hletter 'r' hr rfl fun rest => rfl)
  by_cases ht : c = '\t'
  · exact .inl (hletter 't' ht rfl fun rest => rfl)
  rw [escapedChar, if_neg hquote, if_neg hbackslash, if_neg hb, if_neg hf, if_neg hn, if_neg hr,
    if_neg ht]
  by_cases hcontrol : c.toNat < 0x20
  · rw [if_pos hcontrol]
    refine .inl ⟨'u' :: (Hex.numeral 4 c.toNat).toList, by simp, fun rest => ?_⟩
    rw [List.cons_append, escape, if_pos rfl, unicodeEscape_control hcontrol]
  · rw [if_neg hcontrol]
    exact .inr ⟨by simp, hquote, hbackslash, hcontrol⟩

theorem stringFrom_quote (done rest : List Char) :
    stringFrom done ('"' :: rest) = .ok (String.ofList done.reverse, rest) := by
  rw [stringFrom, if_pos rfl]

theorem stringFrom_escape {done text tail : List Char} {c : Char}
    (h : escape text = .ok (c, tail)) :
    stringFrom done ('\\' :: text) = stringFrom (c :: done) tail := by
  rw [stringFrom, if_neg (by decide), if_pos rfl]
  split
  · next hflaw => rw [h] at hflaw; cases hflaw
  · next hread =>
    rw [h] at hread
    cases hread
    rfl

theorem stringFrom_plain {done rest : List Char} {c : Char} (hquote : c ≠ '"')
    (hbackslash : c ≠ '\\') (hcontrol : ¬ c.toNat < 0x20) :
    stringFrom done (c :: rest) = stringFrom (c :: done) rest := by
  rw [stringFrom, if_neg hquote, if_neg hbackslash, if_neg hcontrol]

/-- One character of a string is read as it was written. -/
theorem stringFrom_escapedChar (done rest : List Char) (c : Char) :
    stringFrom done ((escapedChar c).toList ++ rest) = stringFrom (c :: done) rest := by
  obtain ⟨tail, htext, hescape⟩ | ⟨htext, hquote, hbackslash, hcontrol⟩ := escapedChar_cases c
  · rw [htext, List.cons_append, stringFrom_escape (hescape rest)]
  · rw [htext, List.singleton_append, stringFrom_plain hquote hbackslash hcontrol]

/-- And so are all of them. -/
theorem stringFrom_append (done chars rest : List Char) :
    stringFrom done ((chars.flatMap fun c => (escapedChar c).toList) ++ '"' :: rest) =
      .ok (String.ofList (done.reverse ++ chars), rest) := by
  induction chars generalizing done with
  | nil => rw [List.flatMap_nil, List.nil_append, stringFrom_quote, List.append_nil]
  | cons c chars ih =>
    rw [List.flatMap_cons, List.append_assoc, stringFrom_escapedChar, ih, List.reverse_cons,
      List.append_assoc, List.singleton_append]

/-- **A string is read as it was written**, whatever follows it. -/
theorem stringBody_append (s : String) (rest : List Char) :
    stringBody (escapedChars s ++ '"' :: rest) = .ok (s, rest) := by
  rw [stringBody, escapedChars, stringFrom_append, List.reverse_nil, List.nil_append,
    String.ofList_toList]

/-! ## Numbers -/

/-- **Nothing at the start of the text could belong to a number** before it. -/
def EndsNumber (rest : List Char) : Prop :=
  ∀ c ∈ rest.head?, c.isDigit = false ∧ c ≠ '.' ∧ c ≠ 'e' ∧ c ≠ 'E'

theorem toList_toString_nat (n : Nat) : (toString n).toList = Nat.toDigits 10 n := by
  rw [Nat.toString_eq_ofList_toDigits, String.toList_ofList]

/-- The digits of a number start with a digit. -/
theorem exists_cons_toDigits (n : Nat) :
    ∃ c tail, Nat.toDigits 10 n = c :: tail ∧ c.isDigit = true := by
  cases hdigits : Nat.toDigits 10 n with
  | nil => exact absurd hdigits Nat.toDigits_ne_nil
  | cons c tail =>
    have hmem : c ∈ Nat.toDigits 10 n := by
      rw [hdigits]
      exact List.mem_cons_self
    exact ⟨c, tail, rfl, Nat.isDigit_of_mem_toDigits (by decide) (by decide) hmem⟩

/-- They do not start with a zero, unless there is nothing else. -/
theorem toDigits_eq_of_head_zero {n : Nat} {tail : List Char}
    (h : Nat.toDigits 10 n = '0' :: tail) : tail = [] := by
  induction n using Nat.strongRecOn generalizing tail with
  | ind n ih =>
    rw [Nat.toDigits_eq_if (by decide)] at h
    split_ifs at h with hsmall
    · exact (List.cons.inj h).2.symm
    · -- what comes before the last digit is the row of a number that is not zero
      obtain ⟨c, front, hfront, -⟩ := exists_cons_toDigits (n / 10)
      rw [hfront, List.cons_append] at h
      obtain ⟨rfl, -⟩ := List.cons.inj h
      obtain rfl := ih (n / 10) (by omega) hfront
      have hzero := @Nat.ofDigitChars_ten_toDigits (n / 10)
      rw [hfront] at hzero
      have : n / 10 = 0 := hzero.symm
      omega

/-- All digits are taken, and no more. -/
theorem digits_append (n : Nat) {rest : List Char} (h : EndsNumber rest) :
    digits (Nat.toDigits 10 n ++ rest) = ((Nat.toDigits 10 n).map digitValue, rest) := by
  have hall : ∀ c ∈ Nat.toDigits 10 n, c.isDigit = true := fun c hmem =>
    Nat.isDigit_of_mem_toDigits (by decide) (by decide) hmem
  rw [digits, List.takeWhile_append_of_pos hall, List.dropWhile_append_of_pos hall]
  cases rest with
  | nil => simp
  | cons c rest =>
    have hc : c.isDigit = false := (h c rfl).1
    simp [hc]

/-- The digits of a number stand for it. -/
theorem ofDigits_toDigits (n : Nat) : ofDigits ((Nat.toDigits 10 n).map digitValue) = n := by
  have hread := @Nat.ofDigitChars_ten_toDigits n
  rw [Nat.ofDigitChars] at hread
  rw [ofDigits, List.foldl_map]
  simpa only [digitValue, Nat.mul_comm] using hread

theorem wholePart_append (n : Nat) {rest : List Char} (h : EndsNumber rest) :
    wholePart (Nat.toDigits 10 n ++ rest) = .ok ((Nat.toDigits 10 n).map digitValue, rest) := by
  obtain ⟨c, tail, hdigits, hc⟩ := exists_cons_toDigits n
  have hsome : someDigits (Nat.toDigits 10 n ++ rest) =
      .ok ((Nat.toDigits 10 n).map digitValue, rest) := by
    rw [← digits_append n h, hdigits, List.cons_append, someDigits, if_pos hc]
  rw [← hsome]
  unfold wholePart
  split
  · next next more htext =>
    -- a zero stands alone, and what follows is no digit
    rw [hdigits, List.cons_append] at htext
    obtain ⟨rfl, htail⟩ := List.cons.inj htext
    obtain rfl := toDigits_eq_of_head_zero hdigits
    obtain rfl : rest = next :: more := htail
    have hnext : next.isDigit = false := (h next rfl).1
    rw [hsome, hdigits, if_neg (by simp [hnext])]
    rfl
  · rfl

theorem sign_append (n : Nat) (rest : List Char) :
    sign (Nat.toDigits 10 n ++ rest) = (false, Nat.toDigits 10 n ++ rest) := by
  obtain ⟨c, tail, hdigits, hc⟩ := exists_cons_toDigits n
  rw [hdigits, List.cons_append]
  unfold sign
  split
  · next heq =>
    obtain ⟨rfl, -⟩ := List.cons.inj heq
    exact absurd hc (by decide)
  · rfl

theorem fractionPart_of_endsNumber {rest : List Char} (h : EndsNumber rest) :
    fractionPart rest = .ok (none, rest) := by
  unfold fractionPart
  split
  · exact absurd rfl (h '.' rfl).2.1
  · rfl

theorem exponentPart_of_endsNumber {rest : List Char} (h : EndsNumber rest) :
    exponentPart rest = .ok (none, rest) := by
  cases rest with
  | nil => rfl
  | cons c rest =>
    obtain ⟨-, -, he, hE⟩ := h c rfl
    rw [exponentPart, if_neg (by simp [he, hE])]

/-- **A number is read as it was written**, if what follows cannot belong to
it. -/
theorem numeral_append (n : Nat) {rest : List Char} (h : EndsNumber rest) :
    numeral (Nat.toDigits 10 n ++ rest) =
      .ok (⟨false, (Nat.toDigits 10 n).map digitValue, none, none⟩, rest) := by
  simp only [numeral, sign_append, wholePart_append n h, fractionPart_of_endsNumber h,
    exponentPart_of_endsNumber h]

end Json

end Disasm
