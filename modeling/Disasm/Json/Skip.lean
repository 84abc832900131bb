import Disasm.Json.Numeral
import Disasm.Json.StringBody
/-!
# Values of no interest

`skipValue` finds the end of a JSON value and wants nothing of it but that it
is well formed. Brackets can be nested to any depth: those that are open are
kept in a list. A number that the text breaks off is malformed here, since
nothing tells that it was to go on.
-/

namespace Disasm

namespace Json

/-- A kind of brackets. -/
inductive Bracket
  | array
  | object
deriving DecidableEq, Repr

/-- The closing bracket of a kind. -/
def Bracket.closing : Bracket → Char
  | .array => ']'
  | .object => '}'

/-- What has to come next in a text. -/
inductive Expected
  /-- A value. -/
  | value
  /-- A member of an object: its name, a colon, and its value. -/
  | member
  /-- The first entry of the innermost bracket, or its end. -/
  | entryOrEnd
  /-- A comma and another entry of the innermost bracket, or its end. -/
  | commaOrEnd
deriving DecidableEq, Repr

/-- What an entry of a bracket is. -/
def Bracket.entry : Bracket → Expected
  | .array => .value
  | .object => .member

/-- The text after a value without brackets that starts with `c`. -/
def skipScalar (c : Char) (rest : List Char) : Except Flaw (List Char) :=
  if c = 'n' then word ['u', 'l', 'l'] rest
  else if c = 't' then word ['r', 'u', 'e'] rest
  else if c = 'f' then word ['a', 'l', 's', 'e'] rest
  else if c = '"' then skipString rest
  else if c = '-' ∨ c.isDigit then
    match numeral (c :: rest) with
    | .ok (_, rest) => .ok rest
    | .error _ => .error .malformed
  else .error .malformed

/-- The text after the name of a member and its colon. -/
def skipName (text : List Char) : Except Flaw (List Char) :=
  match mark '"' text with
  | .error flaw => .error flaw
  | .ok rest =>
    match skipString rest with
    | .error flaw => .error flaw
    | .ok rest => mark ':' rest

theorem length_le_of_skipScalar {c : Char} {text rest : List Char}
    (h : skipScalar c text = .ok rest) : rest.length ≤ text.length := by
  unfold skipScalar at h
  split at h
  · have := length_of_word h
    omega
  split at h
  · have := length_of_word h
    omega
  split at h
  · have := length_of_word h
    omega
  split at h
  · exact Nat.le_of_lt (lt_length_of_skipString h)
  split at h
  · split at h
    · next hn =>
      have hlt := lt_length_of_numeral hn
      simp only [Except.ok.injEq] at h
      rw [h, List.length_cons] at hlt
      omega
    · simp at h
  · simp at h

theorem lt_length_of_skipName {text rest : List Char} (h : skipName text = .ok rest) :
    rest.length < text.length := by
  unfold skipName at h
  split at h
  · simp at h
  · next hm =>
    split at h
    · simp at h
    · next hs =>
      have := lt_length_of_mark hm
      have := lt_length_of_skipString hs
      have := lt_length_of_mark h
      omega

/-- How far an expectation is from taking a character. -/
def Expected.rank : Expected → Nat
  | .value | .member | .commaOrEnd => 0
  | .entryOrEnd => 1

theorem Bracket.rank_entry (bracket : Bracket) : bracket.entry.rank = 0 := by
  cases bracket <;> rfl

/-- The text after what is expected and after the end of the brackets that
are open around it, the innermost first. -/
def skipFrom (expected : Expected) (around : List Bracket) (text : List Char) :
    Except Flaw (List Char) :=
  match expected, around with
  | .value, around =>
    match hg : skipGap text with
    | [] => .error .unfinished
    | c :: rest =>
      have := lt_length_of_skipGap hg
      if c = '[' then skipFrom .entryOrEnd (.array :: around) rest
      else if c = '{' then skipFrom .entryOrEnd (.object :: around) rest
      else
        match hs : skipScalar c rest with
        | .error flaw => .error flaw
        | .ok tail =>
          have := length_le_of_skipScalar hs
          skipFrom .commaOrEnd around tail
  | .member, around =>
    match hn : skipName text with
    | .error flaw => .error flaw
    | .ok rest =>
      have := lt_length_of_skipName hn
      skipFrom .value around rest
  | .entryOrEnd, [] => .ok text
  | .entryOrEnd, bracket :: around =>
    match hg : skipGap text with
    | [] => .error .unfinished
    | c :: rest =>
      have := lt_length_of_skipGap hg
      if c = bracket.closing then skipFrom .commaOrEnd around rest
      else skipFrom bracket.entry (bracket :: around) (c :: rest)
  | .commaOrEnd, [] => .ok text
  | .commaOrEnd, bracket :: around =>
    match hg : skipGap text with
    | [] => .error .unfinished
    | c :: rest =>
      have := lt_length_of_skipGap hg
      if c = ',' then skipFrom bracket.entry (bracket :: around) rest
      else if c = bracket.closing then skipFrom .commaOrEnd around rest
      else .error .malformed
termination_by 2 * text.length + expected.rank
decreasing_by all_goals grind [Expected.rank, Bracket.rank_entry]

/-- **The text after a value.** -/
def skipValue (text : List Char) : Except Flaw (List Char) :=
  skipFrom .value [] text

theorem length_le_of_skipFrom {expected : Expected} {around : List Bracket} {text rest : List Char}
    (h : skipFrom expected around text = .ok rest) : rest.length ≤ text.length := by
  fun_induction skipFrom expected around text <;> simp_all <;> omega

end Json

end Disasm
