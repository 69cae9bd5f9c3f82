import QueryGate.Text

/-! # Floating-point numbers from decimal text

The nearest binary floating-point number of 64 bits to a decimal number, by its bits; of two
equally near ones that with an even last bit. All arithmetic is exact.
-/

namespace QueryGate.Document.Binary64

/-- The bits of positive infinity, above those of every finite positive number. -/
def infinityBits : Nat := 0x7FF0000000000000

/-- The bits of a quiet not-a-number. -/
def nanBits : Nat := 0x7FF8000000000000

/-- The bits with the sign bit set for a negative number. -/
def withSign (negative : Bool) (bits : Nat) : UInt64 :=
  UInt64.ofNat (if negative then bits + Nat.pow 2 63 else bits)

/-- The quotient rounded to the nearest natural number, a half to the even one. -/
def divideRounding (numerator denominator : Nat) : Nat :=
  let quotient := numerator / denominator
  let twice := 2 * (numerator % denominator)
  if denominator < twice ∨ (denominator = twice ∧ quotient % 2 = 1) then quotient + 1
  else quotient

/-- The greatest power of two, by its exponent, that is at most a positive fraction. -/
def exponentOf (numerator denominator : Nat) : Int :=
  let guess := (Nat.log2 numerator : Int) - Nat.log2 denominator
  let reached : Bool :=
    if 0 ≤ guess then denominator * Nat.pow 2 guess.toNat ≤ numerator
    else denominator ≤ numerator * Nat.pow 2 (-guess).toNat
  if reached then guess else guess - 1

/-- The bits nearest to a positive fraction; `none` when it is too great. The last bit of a
number is worth at least `2 ^ (-1074)`, and more when it has more than 53 bits. -/
def ofFraction? (numerator denominator : Nat) : Option Nat :=
  let unit : Int := max (exponentOf numerator denominator - 52) (-1074)
  let significand :=
    if 0 ≤ unit then divideRounding numerator (denominator * Nat.pow 2 unit.toNat)
    else divideRounding (numerator * Nat.pow 2 (-unit).toNat) denominator
  let bits := (unit + 1074).toNat * Nat.pow 2 52 + significand
  if bits < infinityBits then some bits else none

/-- The bits nearest to `± significand * 10 ^ exponent`; `none` when that is too great. -/
def ofDecimal? (negative : Bool) (significand : Nat) (exponent : Int) : Option UInt64 :=
  let magnitude := (Nat.toDigits 10 significand).length + exponent
  let bits : Option Nat :=
    if significand = 0 ∨ magnitude < -400 then some 0
    else if 400 < magnitude then none
    else if 0 ≤ exponent then ofFraction? (significand * Nat.pow 10 exponent.toNat) 1
    else ofFraction? significand (Nat.pow 10 (-exponent).toNat)
  bits.map (withSign negative)

end QueryGate.Document.Binary64
