/-!
# Code, and checked access to it

Code is a string of bytes addressed by 64-bit positions. Every access to it,
and every sum or difference of positions, goes through the functions of this
module: each either gives its answer or stops with a `Trap` that says what
was asked for. Nothing is clipped and nothing wraps around, so that a result
without a trap is one in which every position was what it stands for.
-/

namespace Disasm

/-- A string of bytes that instructions are cut from. -/
abbrev Code := Array UInt8

/-- What was wrong with an access to code. -/
inductive Trap
  /-- The code does not hold the bytes from `start` up to `stop`. -/
  | outOfRange (start stop : Nat)
  /-- The sum of two positions is no 64-bit number. -/
  | overflow (left right : Nat)
  /-- The difference of two positions is negative. -/
  | underflow (left right : Nat)
  /-- The code was not used up in the number of steps allowed. -/
  | stalled
deriving DecidableEq, Repr

namespace Position

/-- How many positions there are. -/
def count : Nat := UInt64.size

/-- The sum of two positions. -/
def add (left right : Nat) : Except Trap Nat :=
  if left + right < count then .ok (left + right) else .error (.overflow left right)

/-- The difference of two positions. -/
def sub (left right : Nat) : Except Trap Nat :=
  if right ≤ left then .ok (left - right) else .error (.underflow left right)

end Position

namespace Code

/-- The byte at a position. -/
def byteAt (code : Code) (pos : Nat) : Except Trap UInt8 :=
  if h : pos < code.size then .ok code[pos] else .error (.outOfRange pos (pos + 1))

/-- The bytes from `start` up to `stop`. -/
def slice (code : Code) (start stop : Nat) : Except Trap (List UInt8) :=
  if start ≤ stop ∧ stop ≤ code.size then .ok (code.extract start stop).toList
  else .error (.outOfRange start stop)

end Code

end Disasm
