/-!
# Doubles as bit patterns

A double is kept as its 64 bits, so that equality is decidable and a value can be taken apart in
exact arithmetic. `Double.ofDecimal?` reads a decimal numeral by scaling a 64-bit significand in
steps, rounding after each step.
-/

namespace AssemblyPolicy

/-- A binary64 number, given by its bits. -/
structure Double where
  bits : UInt64
  deriving DecidableEq, Inhabited

namespace Double

/-- The double nearest to a machine float. -/
def ofFloat (x : Float) : Double := ⟨x.toBits⟩

def toFloat (d : Double) : Float := Float.ofBits d.bits

def isNegative (d : Double) : Bool := d.bits.toNat >>> 63 = 1

def exponentBits (d : Double) : Nat := (d.bits.toNat >>> 52) % 2048

def fractionBits (d : Double) : Nat := d.bits.toNat % (1 <<< 52)

/-- The significand `m` of the magnitude `m · 2 ^ d.exponent`. -/
def significand (d : Double) : Nat :=
  if d.exponentBits = 0 then d.fractionBits else (1 <<< 52) + d.fractionBits

/-- The power of two in the magnitude `d.significand · 2 ^ e`. -/
def exponent (d : Double) : Int :=
  if d.exponentBits = 0 then -1074 else (d.exponentBits : Int) - 1075

/-- Is the neighbour below only half as far away as the one above? -/
def isLowerHalved (d : Double) : Bool := d.fractionBits = 0 && d.exponentBits > 1

/-- The power of ten `10 ^ n`, correctly rounded. -/
private def powerOfTen (n : Nat) : Float := Float.ofScientific 1 false n

/-- Scale by `10 ^ e`, at most 308 decimal places at a time; `none` when the result is too large. -/
def scale? : Nat → Float → Int → Option Float
  | 0, x, _ => some x
  | fuel + 1, x, e =>
    if e.natAbs ≤ 308 then
      if 0 ≤ e then
        let y := x * powerOfTen e.natAbs
        if y.isInf then none else some y
      else
        some (x / powerOfTen e.natAbs)
    else if x == 0.0 then
      some x
    else if 0 ≤ e then
      none
    else
      scale? fuel (x / powerOfTen 308) (e + 308)

/-- The double written `± significand · 10 ^ e`, or `none` when it is out of range. The significand
fits 64 bits, so after four divisions by `10 ^ 308` nothing is left of it. -/
def ofDecimal? (negative : Bool) (significand : UInt64) (e : Int) : Option Double :=
  (scale? 5 significand.toFloat e).map fun x => ofFloat (if negative then -x else x)

end Double

end AssemblyPolicy
