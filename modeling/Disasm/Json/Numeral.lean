import Disasm.Json.Flaw
import Disasm.Json.Magnitude
/-!
# JSON numbers

A number is read in its parts: sign, whole digits, fraction, exponent. What
it stands for is asked afterwards.
-/

namespace Disasm

namespace Json

/-- A number as it is written. -/
structure Numeral where
  negative : Bool
  /-- The digits before the point. -/
  whole : List Nat
  /-- The digits after the point, if there is one. -/
  fraction : Option (List Nat)
  /-- The exponent, if there is one. -/
  exponent : Option Int
deriving DecidableEq, Repr

/-- The value of a decimal digit. -/
def digitValue (c : Char) : Nat :=
  c.toNat - '0'.toNat

/-- The digits at the start of a text, and the text after them. -/
def digits (text : List Char) : List Nat × List Char :=
  ((text.takeWhile Char.isDigit).map digitValue, text.dropWhile Char.isDigit)

/-- The digits at the start of a text, of which there must be one. -/
def someDigits (text : List Char) : Except Flaw (List Nat × List Char) :=
  match text with
  | [] => .error .unfinished
  | c :: _ => if c.isDigit then .ok (digits text) else .error .malformed

/-- The number that digits stand for. -/
def ofDigits (ds : List Nat) : Nat :=
  ds.foldl (fun n d => n * 10 + d) 0

/-- The digits before the point; a zero stands alone. -/
def wholePart (text : List Char) : Except Flaw (List Nat × List Char) :=
  match text with
  | '0' :: c :: rest => if c.isDigit then .error .malformed else .ok ([0], c :: rest)
  | text => someDigits text

/-- The fraction, if a point follows. -/
def fractionPart (text : List Char) : Except Flaw (Option (List Nat) × List Char) :=
  match text with
  | '.' :: rest =>
    match someDigits rest with
    | .error flaw => .error flaw
    | .ok (ds, rest) => .ok (some ds, rest)
  | text => .ok (none, text)

/-- Whether a minus sign comes first, and the text after a sign of either
kind. -/
def exponentSign (text : List Char) : Bool × List Char :=
  match text with
  | '-' :: rest => (true, rest)
  | '+' :: rest => (false, rest)
  | text => (false, text)

/-- A number of digits, with a sign or without. -/
def signedDigits (text : List Char) : Except Flaw (Int × List Char) :=
  match someDigits (exponentSign text).2 with
  | .error flaw => .error flaw
  | .ok (ds, rest) =>
    .ok (if (exponentSign text).1 then -(ofDigits ds : Int) else ofDigits ds, rest)

/-- The exponent, if its letter follows. -/
def exponentPart (text : List Char) : Except Flaw (Option Int × List Char) :=
  match text with
  | [] => .ok (none, [])
  | c :: rest =>
    if c = 'e' ∨ c = 'E' then
      match signedDigits rest with
      | .error flaw => .error flaw
      | .ok (n, rest) => .ok (some n, rest)
    else .ok (none, c :: rest)

/-- Whether a minus sign comes first, and the text after it. -/
def sign (text : List Char) : Bool × List Char :=
  match text with
  | '-' :: rest => (true, rest)
  | text => (false, text)

/-- **The number at the start of a text**, and the text after it. -/
def numeral (text : List Char) : Except Flaw (Numeral × List Char) :=
  match wholePart (sign text).2 with
  | .error flaw => .error flaw
  | .ok (whole, rest) =>
    match fractionPart rest with
    | .error flaw => .error flaw
    | .ok (fraction, rest) =>
      match exponentPart rest with
      | .error flaw => .error flaw
      | .ok (exponent, rest) => .ok (⟨(sign text).1, whole, fraction, exponent⟩, rest)

/-! ## A number takes a character or more -/

theorem lt_length_of_someDigits {text rest : List Char} {ds : List Nat}
    (h : someDigits text = .ok (ds, rest)) : rest.length < text.length := by
  unfold someDigits at h
  split at h
  · simp at h
  · next c tail =>
    split at h
    · next hc =>
      simp only [digits, Except.ok.injEq, Prod.mk.injEq] at h
      rw [← h.2, List.dropWhile_cons_of_pos hc]
      exact Nat.lt_succ_of_le (List.dropWhile_sublist _).length_le
    · simp at h

theorem lt_length_of_wholePart {text rest : List Char} {ds : List Nat}
    (h : wholePart text = .ok (ds, rest)) : rest.length < text.length := by
  unfold wholePart at h
  split at h
  · split at h
    · simp at h
    · simp only [Except.ok.injEq, Prod.mk.injEq] at h
      simp [← h.2]
  · exact lt_length_of_someDigits h

theorem length_le_of_fractionPart {text rest : List Char} {ds : Option (List Nat)}
    (h : fractionPart text = .ok (ds, rest)) : rest.length ≤ text.length := by
  unfold fractionPart at h
  split at h
  · next tail =>
    split at h
    · simp at h
    · next hd =>
      have := lt_length_of_someDigits hd
      simp only [Except.ok.injEq, Prod.mk.injEq] at h
      rw [← h.2, List.length_cons]
      omega
  · simp_all

theorem length_exponentSign_le (text : List Char) :
    (exponentSign text).2.length ≤ text.length := by
  unfold exponentSign
  split <;> simp

theorem length_le_of_signedDigits {text rest : List Char} {n : Int}
    (h : signedDigits text = .ok (n, rest)) : rest.length ≤ text.length := by
  have hs := length_exponentSign_le text
  unfold signedDigits at h
  split at h
  · simp at h
  · next hd =>
    have := lt_length_of_someDigits hd
    simp only [Except.ok.injEq, Prod.mk.injEq] at h
    rw [← h.2]
    omega

theorem length_le_of_exponentPart {text rest : List Char} {n : Option Int}
    (h : exponentPart text = .ok (n, rest)) : rest.length ≤ text.length := by
  unfold exponentPart at h
  split at h
  · simp_all
  · split at h
    · split at h
      · simp at h
      · next hd =>
        have := length_le_of_signedDigits hd
        simp only [Except.ok.injEq, Prod.mk.injEq] at h
        rw [← h.2, List.length_cons]
        omega
    · simp_all

theorem length_sign_le (text : List Char) : (sign text).2.length ≤ text.length := by
  unfold sign
  split <;> simp

theorem lt_length_of_numeral {text rest : List Char} {n : Numeral}
    (h : numeral text = .ok (n, rest)) : rest.length < text.length := by
  have hs := length_sign_le text
  unfold numeral at h
  split at h
  · simp at h
  · next hw =>
    split at h
    · simp at h
    · next hf =>
      split at h
      · simp at h
      · next he =>
        have := lt_length_of_wholePart hw
        have := length_le_of_fractionPart hf
        have := length_le_of_exponentPart he
        simp only [Except.ok.injEq, Prod.mk.injEq] at h
        rw [← h.2]
        omega

namespace Numeral

/-- Whether the number is too large for a binary64 number. -/
def isTooLarge (n : Numeral) : Bool :=
  Magnitude.exceedsDecimal n.whole (n.fraction.getD []) (n.exponent.getD 0)

/-- The number as an unsigned 64-bit integer, if it is written as one. -/
def toUInt64? (n : Numeral) : Option UInt64 :=
  match n with
  | ⟨false, whole, none, none⟩ =>
    if ofDigits whole < UInt64.size then some (UInt64.ofNat (ofDigits whole)) else none
  | _ => none

end Numeral

end Json

end Disasm
