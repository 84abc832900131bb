import Disasm.Json.Numeral
import Disasm.Json.StringBody
/-!
# Values of a given kind

Reading a value of which the kind is known beforehand: a truth value, or a
number that may be null. A value of another kind is a flaw as soon as it is
read, or at its opening bracket; if it is itself not well formed, that is the
flaw instead.
-/

namespace Disasm

namespace Json

/-- The flaw of a value that was read although it is not of the kind wanted:
its own, if it has one. -/
def judge {α : Type} : Except Flaw α → Flaw
  | .ok _ => .mistyped
  | .error flaw => flaw

/-- The flaw of a value that is not of the kind wanted and starts with `c`. The
value is read first, unless it is in brackets. -/
def misfit (c : Char) (rest : List Char) : Flaw :=
  if c = 'n' then judge (word ['u', 'l', 'l'] rest)
  else if c = 't' then judge (word ['r', 'u', 'e'] rest)
  else if c = 'f' then judge (word ['a', 'l', 's', 'e'] rest)
  else if c = '"' then judge (stringBody rest)
  else if c = '-' ∨ c.isDigit then
    match numeral (c :: rest) with
    | .ok (n, _) => if n.isTooLarge then .malformed else .mistyped
    | .error flaw => flaw
  else if c = '[' ∨ c = '{' then .mistyped
  else .malformed

/-- A value that is written as a word, read from just past its first letter. -/
def literal {α : Type} (expected : List Char) (value : α) (text : List Char) :
    Except Flaw (α × List Char) :=
  (word expected text).map fun rest => (value, rest)

/-- A truth value, and the text after it. -/
def flag (text : List Char) : Except Flaw (Bool × List Char) :=
  match skipGap text with
  | [] => .error .unfinished
  | c :: rest =>
    if c = 't' then literal ['r', 'u', 'e'] true rest
    else if c = 'f' then literal ['a', 'l', 's', 'e'] false rest
    else .error (misfit c rest)

/-- A 64-bit number or null, and the text after it. -/
def limit (text : List Char) : Except Flaw (Option UInt64 × List Char) :=
  match skipGap text with
  | [] => .error .unfinished
  | c :: rest =>
    if c = 'n' then literal ['u', 'l', 'l'] none rest
    else if c.isDigit then
      match numeral (c :: rest) with
      | .error flaw => .error flaw
      | .ok (n, tail) =>
        match n.toUInt64? with
        | some word => .ok (some word, tail)
        | none => .error (misfit c rest)
    else .error (misfit c rest)

/-! ## A value takes a character or more -/

theorem length_le_of_literal {α : Type} {expected text rest : List Char} {value a : α}
    (h : literal expected value text = .ok (a, rest)) : rest.length ≤ text.length := by
  unfold literal at h
  cases hw : word expected text with
  | error => simp [hw, Except.map] at h
  | ok tail =>
    simp only [hw, Except.map, Except.ok.injEq, Prod.mk.injEq] at h
    have := length_of_word hw
    rw [← h.2]
    omega

theorem lt_length_of_flag {text rest : List Char} {b : Bool}
    (h : flag text = .ok (b, rest)) : rest.length < text.length := by
  unfold flag at h
  split at h
  · simp at h
  · next hg =>
    have hg := lt_length_of_skipGap hg
    split at h
    · have := length_le_of_literal h
      omega
    · split at h
      · have := length_le_of_literal h
        omega
      · simp at h

theorem lt_length_of_limit {text rest : List Char} {n : Option UInt64}
    (h : limit text = .ok (n, rest)) : rest.length < text.length := by
  unfold limit at h
  split at h
  · simp at h
  · next hg =>
    have hg := lt_length_of_skipGap hg
    split at h
    · have := length_le_of_literal h
      omega
    · split at h
      · split at h
        · simp at h
        · next hn =>
          have hn := lt_length_of_numeral hn
          split at h
          · simp only [Except.ok.injEq, Prod.mk.injEq] at h
            rw [List.length_cons, h.2] at hn
            omega
          · simp at h
      · simp at h

end Json

end Disasm
