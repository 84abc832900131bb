import Disasm.Json.Flaw
import Disasm.Text.Hex
/-!
# JSON strings

Reading a string from just past its opening quotation mark. `stringBody` decodes
it: escapes stand for characters, and the two halves of a surrogate pair for
one. `skipString` only finds its end; it wants every escape well formed, but
does not look at what the escapes stand for.
-/

namespace Disasm

namespace Json

/-! ## Escapes -/

/-- The value of a hexadecimal digit. -/
def hexValue? (c : Char) : Option Nat :=
  if c.toNat < 0x80 then (Hex.digit? (UInt8.ofNat c.toNat)).map UInt8.toNat else none

/-- The code unit of a `\u` escape: four hexadecimal digits. The text is
unfinished if fewer than four bytes of it are left. -/
def codeUnit (text : List Char) : Except Flaw (Nat × List Char) :=
  match text with
  | a :: b :: c :: d :: rest =>
    match hexValue? a, hexValue? b, hexValue? c, hexValue? d with
    | some a, some b, some c, some d => .ok (((a * 16 + b) * 16 + c) * 16 + d, rest)
    | _, _, _, _ => .error .malformed
  | text =>
    .error (if (String.ofList text).utf8ByteSize < 4 then .unfinished else .malformed)

/-- The character of a one-letter escape. -/
def simpleEscape? (c : Char) : Option Char :=
  if c = '"' ∨ c = '\\' ∨ c = '/' then some c
  else if c = 'b' then some '\x08'
  else if c = 'f' then some '\x0c'
  else if c = 'n' then some '\n'
  else if c = 'r' then some '\r'
  else if c = 't' then some '\t'
  else none

/-- The first half of a surrogate pair. -/
def isLeading (unit : Nat) : Bool :=
  decide (0xd800 ≤ unit) && decide (unit ≤ 0xdbff)

/-- The second half of a surrogate pair. -/
def isTrailing (unit : Nat) : Bool :=
  decide (0xdc00 ≤ unit) && decide (unit ≤ 0xdfff)

/-- The second half of a surrogate pair, which another escape has to give. -/
def secondHalf (text : List Char) : Except Flaw (Nat × List Char) :=
  match word ['\\', 'u'] text with
  | .error flaw => .error flaw
  | .ok text =>
    match codeUnit text with
    | .error flaw => .error flaw
    | .ok (unit, text) => if isTrailing unit then .ok (unit, text) else .error .malformed

/-- The character that a `\u` escape stands for, read from just past the `u`. -/
def unicodeEscape (text : List Char) : Except Flaw (Char × List Char) :=
  match codeUnit text with
  | .error flaw => .error flaw
  | .ok (unit, text) =>
    if isTrailing unit then .error .malformed
    else if isLeading unit then
      match secondHalf text with
      | .error flaw => .error flaw
      | .ok (second, text) =>
        .ok (Char.ofNat ((unit - 0xd800) * 0x400 + (second - 0xdc00) + 0x10000), text)
    else .ok (Char.ofNat unit, text)

/-- The character that an escape stands for, read from just past the
backslash. -/
def escape (text : List Char) : Except Flaw (Char × List Char) :=
  match text with
  | [] => .error .unfinished
  | c :: rest =>
    if c = 'u' then unicodeEscape rest
    else
      match simpleEscape? c with
      | some c => .ok (c, rest)
      | none => .error .malformed

/-- The text after an escape, read from just past the backslash. -/
def skipEscape (text : List Char) : Except Flaw (List Char) :=
  match text with
  | [] => .error .unfinished
  | c :: rest =>
    if c = 'u' then
      match codeUnit rest with
      | .error flaw => .error flaw
      | .ok (_, rest) => .ok rest
    else if (simpleEscape? c).isSome then .ok rest
    else .error .malformed

/-! ## An escape uses up some of the text -/

theorem length_of_codeUnit {text rest : List Char} {unit : Nat}
    (h : codeUnit text = .ok (unit, rest)) : text.length = rest.length + 4 := by
  unfold codeUnit at h
  split at h
  · split at h
    · simp only [Except.ok.injEq, Prod.mk.injEq] at h
      simp [h.2]
    · simp at h
  · simp at h

theorem length_of_secondHalf {text rest : List Char} {unit : Nat}
    (h : secondHalf text = .ok (unit, rest)) : text.length = rest.length + 6 := by
  unfold secondHalf at h
  split at h
  · simp at h
  · next hw =>
    split at h
    · simp at h
    · next hu =>
      split at h
      · simp only [Except.ok.injEq, Prod.mk.injEq] at h
        have h1 := length_of_word hw
        have h2 := length_of_codeUnit hu
        simp only [List.length_cons, List.length_nil] at h1
        rw [← h.2]
        omega
      · simp at h

theorem lt_length_of_unicodeEscape {text rest : List Char} {c : Char}
    (h : unicodeEscape text = .ok (c, rest)) : rest.length < text.length := by
  unfold unicodeEscape at h
  split at h
  · simp at h
  · next hu =>
    have hu := length_of_codeUnit hu
    split at h
    · simp at h
    · split at h
      · split at h
        · simp at h
        · next hs =>
          have hs := length_of_secondHalf hs
          simp only [Except.ok.injEq, Prod.mk.injEq] at h
          rw [← h.2]
          omega
      · simp only [Except.ok.injEq, Prod.mk.injEq] at h
        rw [← h.2]
        omega

theorem lt_length_of_escape {text rest : List Char} {c : Char}
    (h : escape text = .ok (c, rest)) : rest.length < text.length := by
  unfold escape at h
  split at h
  · simp at h
  · split at h
    · exact Nat.lt_succ_of_lt (lt_length_of_unicodeEscape h)
    · split at h
      · simp only [Except.ok.injEq, Prod.mk.injEq] at h
        simp [← h.2]
      · simp at h

theorem lt_length_of_skipEscape {text rest : List Char}
    (h : skipEscape text = .ok rest) : rest.length < text.length := by
  unfold skipEscape at h
  split at h
  · simp at h
  · split at h
    · split at h
      · simp at h
      · next hu =>
        have hu := length_of_codeUnit hu
        simp only [Except.ok.injEq] at h
        rw [← h, List.length_cons]
        omega
    · split at h
      · simp only [Except.ok.injEq] at h
        simp [← h]
      · simp at h

/-! ## Strings -/

/-- The characters of a string, after those in `done` (in reverse), and the
text after its closing quotation mark. -/
def stringFrom (done : List Char) (text : List Char) : Except Flaw (String × List Char) :=
  match text with
  | [] => .error .unfinished
  | c :: rest =>
    if c = '"' then .ok (String.ofList done.reverse, rest)
    else if c = '\\' then
      match h : escape rest with
      | .error flaw => .error flaw
      | .ok (c, tail) =>
        have := lt_length_of_escape h
        stringFrom (c :: done) tail
    else if c.toNat < 0x20 then .error .malformed
    else stringFrom (c :: done) rest
termination_by text.length

/-- **The string at the start of a text**, read from just past its opening
quotation mark, and the text after it. -/
def stringBody (text : List Char) : Except Flaw (String × List Char) :=
  stringFrom [] text

/-- The text after a string, read from just past its opening quotation mark. -/
def skipString (text : List Char) : Except Flaw (List Char) :=
  match text with
  | [] => .error .unfinished
  | c :: rest =>
    if c = '"' then .ok rest
    else if c = '\\' then
      match h : skipEscape rest with
      | .error flaw => .error flaw
      | .ok tail =>
        have := lt_length_of_skipEscape h
        skipString tail
    else if c.toNat < 0x20 then .error .malformed
    else skipString rest
termination_by text.length

theorem lt_length_of_stringFrom {done text rest : List Char} {s : String}
    (h : stringFrom done text = .ok (s, rest)) : rest.length < text.length := by
  fun_induction stringFrom done text with
  | case1 => simp at h
  | case2 => simp_all
  | case3 => simp at h
  | case4 _ _ _ _ _ hlt _ ih => exact Nat.lt_succ_of_lt (Nat.lt_trans (ih h) hlt)
  | case5 => simp at h
  | case6 _ _ _ _ _ _ ih => exact Nat.lt_succ_of_lt (ih h)

theorem lt_length_of_skipString {text rest : List Char} (h : skipString text = .ok rest) :
    rest.length < text.length := by
  fun_induction skipString text with
  | case1 => simp at h
  | case2 => simp_all
  | case3 => simp at h
  | case4 _ _ _ hlt _ ih => exact Nat.lt_succ_of_lt (Nat.lt_trans (ih h) hlt)
  | case5 => simp at h
  | case6 _ _ _ _ _ ih => exact Nat.lt_succ_of_lt (ih h)

end Json

end Disasm
