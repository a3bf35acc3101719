/-!
# Reals as binary fractions

A `real` is an IEEE 754 double.  Its magnitude, when finite, is
`significand * 2 ^ exponent` for two integers.  This module takes a double apart
into these and puts one together again, and from that defines the remainder of
a division exactly: both operands are brought to one power of two and the
remainder is taken of integers.
-/

namespace Imperative.Real

/-- The magnitude `significand * 2 ^ exponent` of a finite double. -/
structure Magnitude where
  significand : Nat
  exponent : Int

def fractionBits : Nat := 52

def fractionCount : Nat := 4503599627370496

def signWeight : Nat := 9223372036854775808

/-- The exponent of the least positive double, which is also that of every subnormal one. -/
def leastExponent : Int := -1074

def biasedExponent (bits : UInt64) : Nat :=
  bits.toNat / fractionCount % 2048

def fraction (bits : UInt64) : Nat :=
  bits.toNat % fractionCount

def isNegative (bits : UInt64) : Bool :=
  decide (signWeight ≤ bits.toNat)

def magnitude (bits : UInt64) : Magnitude :=
  if biasedExponent bits = 0 then
    { significand := fraction bits, exponent := leastExponent }
  else
    { significand := fraction bits + fractionCount
      exponent := (biasedExponent bits : Int) - 1 + leastExponent }

/--
The bits of a double with the given sign and magnitude.  The magnitude has to be
one that a double can hold: a significand below `2 ^ 53`, which is scaled up until
its leading bit is stored or the least exponent is reached.
-/
def assemble (negative : Bool) (value : Magnitude) : UInt64 :=
  let room := (value.exponent - leastExponent).toNat
  let shift := min room (fractionBits - Nat.log2 value.significand)
  let significand := value.significand * Nat.pow 2 shift
  let field :=
    if value.significand = 0 then 0
    else if significand < fractionCount then significand
    else (room - shift) * fractionCount + significand
  UInt64.ofNat (field + if negative then signWeight else 0)

/--
The remainder of `dividend` by a divisor other than zero, both finite: the exact
difference between the dividend and the truncated quotient times the divisor.  It
has the sign of the dividend and is always a double.
-/
def remainder (dividend divisor : Float) : Float :=
  let left := magnitude dividend.toBits
  let right := magnitude divisor.toBits
  let exponent := min left.exponent right.exponent
  let scale (value : Magnitude) : Nat :=
    value.significand * Nat.pow 2 (value.exponent - exponent).toNat
  Float.ofBits <|
    assemble (isNegative dividend.toBits)
      { significand := scale left % scale right, exponent }

end Imperative.Real
