/-!
# Flaws of JSON text

What can be wrong with a text that is read as JSON for a given purpose. The
text is read from left to right, and the first flaw decides.
-/

namespace Disasm

namespace Json

/-- What is wrong with a JSON text. -/
inductive Flaw
  /-- The text ends too early. -/
  | unfinished
  /-- The text is not JSON. -/
  | malformed
  /-- The text is JSON, but not of the kind that was wanted. -/
  | mistyped
deriving DecidableEq, Repr

/-- A blank between the parts of a JSON text. -/
def isGap (c : Char) : Bool :=
  c == ' ' || c == '\t' || c == '\n' || c == '\r'

/-- The text from its first character that is not a blank. -/
def skipGap (text : List Char) : List Char :=
  text.dropWhile isGap

/-- The text after a word, which it has to start with. -/
def word : (expected : List Char) → List Char → Except Flaw (List Char)
  | [], rest => .ok rest
  | _ :: _, [] => .error .unfinished
  | e :: expected, c :: rest => if c = e then word expected rest else .error .malformed

/-- The text after a mark, with blanks before the mark dropped. -/
def mark (expected : Char) (text : List Char) : Except Flaw (List Char) :=
  match skipGap text with
  | [] => .error .unfinished
  | c :: rest => if c = expected then .ok rest else .error .malformed

/-! ## What is left is not longer -/

theorem length_skipGap_le (text : List Char) : (skipGap text).length ≤ text.length :=
  (List.dropWhile_sublist isGap).length_le

theorem lt_length_of_skipGap {text rest : List Char} {c : Char} (h : skipGap text = c :: rest) :
    rest.length < text.length := by
  have := length_skipGap_le text
  simp only [h, List.length_cons] at this
  omega

theorem length_of_word {expected text rest : List Char} (h : word expected text = .ok rest) :
    text.length = expected.length + rest.length := by
  induction expected generalizing text with
  | nil => simp_all [word]
  | cons e expected ih =>
    cases text with
    | nil => simp [word] at h
    | cons c text =>
      simp only [word] at h
      split at h
      · simp [ih h]; omega
      · simp at h

theorem lt_length_of_mark {expected : Char} {text rest : List Char}
    (h : mark expected text = .ok rest) : rest.length < text.length := by
  unfold mark at h
  split at h
  · simp at h
  · next hg =>
    split at h
    · simp only [Except.ok.injEq] at h
      exact h ▸ lt_length_of_skipGap hg
    · simp at h

end Json

end Disasm
