/-!
# The magnitude of decimal numbers

Whether a number written with digits, a point and an exponent is too large
for a binary64 number. The digits are first gathered into a significand of at
most 64 bits and a power of ten; both are rounded to 53 bits, then multiplied,
and the product is rounded again.
-/

namespace Disasm

namespace Magnitude

/-- The greatest number of 53 significant bits that is not above `n`, or the
next one, whichever is nearer; of two equally near the one with an even last
bit. -/
def round (n : Nat) : Nat :=
  let unit := 1 <<< (Nat.log2 n + 1 - 53)
  let quotient := n / unit
  let remainder := n % unit
  if 2 * remainder < unit ∨ (2 * remainder = unit ∧ quotient % 2 = 0) then quotient * unit
  else (quotient + 1) * unit

/-- Takes decimal digits into a significand as long as it fits in 64 bits; also
gives the number of digits left over. -/
def gather (significand : Nat) : List Nat → Nat × Nat
  | [] => (significand, 0)
  | digit :: rest =>
    if significand * 10 + digit < UInt64.size then gather (significand * 10 + digit) rest
    else (significand, rest.length + 1)

/-- Whether `significand * 10 ^ scale` is too large. -/
def exceeds (significand : Nat) (scale : Int) : Bool :=
  significand != 0
    && (decide (308 < scale)
      || (decide (0 ≤ scale)
        && decide (1 <<< 1024 ≤ round (round significand * round (Nat.pow 10 scale.toNat)))))

/-- Whether the number with the given digits before and after the point, and
the given exponent, is too large. -/
def exceedsDecimal (whole fraction : List Nat) (exponent : Int) : Bool :=
  let (significand, dropped) := gather 0 whole
  let (significand, ignored) := gather significand fraction
  exceeds significand (exponent + dropped - (fraction.length - ignored))

end Magnitude

end Disasm
