/-! Times in seconds as binary floating point numbers of 64 bits. They are kept by
their bits, so that the total order, which tells the zeros and the signs of undefined
values apart, and the rounding of sums and differences are definitions in `Nat`. -/

namespace ProfileTrace

structure Seconds where
  bits : UInt64
  deriving DecidableEq, Repr

namespace Seconds

def signBit : Nat := 0x8000000000000000

def perExponent : Nat := 0x10000000000000

/-- The magnitude bits of infinity; larger ones are undefined values. -/
def infiniteMagnitude : Nat := 0x7FF * perExponent

def magnitude (s : Seconds) : Nat := s.bits.toNat % signBit

def isNegative (s : Seconds) : Bool := signBit ≤ s.bits.toNat

def isUndefined (s : Seconds) : Bool := infiniteMagnitude < s.magnitude

def isInfinite (s : Seconds) : Bool := s.magnitude == infiniteMagnitude

def isFinite (s : Seconds) : Bool := s.magnitude < infiniteMagnitude

def ofMagnitude (negative : Bool) (magnitude : Nat) : Seconds :=
  ⟨UInt64.ofNat (if negative then signBit + magnitude else magnitude)⟩

def zero : Seconds := ofMagnitude false 0

def negativeZero : Seconds := ofMagnitude true 0

/-- Minus one second, the time of a record without a readable one. -/
def minusOne : Seconds := ofMagnitude true (0x3FF * perExponent)

def infinite (negative : Bool) : Seconds := ofMagnitude negative infiniteMagnitude

def undefinedValue (negative : Bool) : Seconds :=
  ofMagnitude negative (infiniteMagnitude + perExponent / 2)

def negate (s : Seconds) : Seconds := ofMagnitude (!s.isNegative) s.magnitude

/-! ### Order -/

/-- The key of the total order: negative values below positive ones, each zero, infinity
and undefined value at its own place. -/
def totalKey (s : Seconds) : Int :=
  if s.isNegative then -1 - (s.magnitude : Int) else s.magnitude

def totalLe (a b : Seconds) : Bool := a.totalKey ≤ b.totalKey

def orderKey (s : Seconds) : Int :=
  if s.isNegative then -(s.magnitude : Int) else s.magnitude

/-- The numeric order; an undefined value is not below or above anything. -/
def less (a b : Seconds) : Bool :=
  !a.isUndefined && !b.isUndefined && a.orderKey < b.orderKey

/-- The larger of the two, the second of equals, and the defined one of a mixed pair. -/
def latest (a b : Seconds) : Seconds :=
  if a.isUndefined || !b.isUndefined && !b.less a then b else a

/-! ### Arithmetic -/

/-- The quotient rounded to the nearest integer, a tie to the even one. -/
def roundDiv (numerator denominator : Nat) : Nat :=
  let quotient := numerator / denominator
  let twice := 2 * (numerator % denominator)
  if twice < denominator then quotient
  else if denominator < twice then quotient + 1
  else quotient + quotient % 2

/-- Finite values are multiples of two to the power of minus 1074. -/
def unitExponent : Nat := 1074

/-- The magnitude bits of the value nearest to a number of units. With a shift that leaves
53 bits of the number, the shifted number added to the shift's place in the exponent is
the encoding; rounding up to 54 bits carries into the exponent as it should. -/
def nearestMagnitude (numerator denominator : Nat) : Nat :=
  let shift := (numerator / denominator).log2 - 52
  min (shift * perExponent + roundDiv numerator (denominator * Nat.pow 2 shift)) infiniteMagnitude

def spacing (magnitude : Nat) : Nat := Nat.pow 2 (magnitude / perExponent - 1)

def magnitudeUnits (magnitude : Nat) : Nat :=
  if magnitude < perExponent then magnitude
  else (perExponent + magnitude % perExponent) * spacing magnitude

def units (s : Seconds) : Int :=
  if s.isNegative then -(magnitudeUnits s.magnitude : Int) else magnitudeUnits s.magnitude

/-- The sum, rounded to nearest. The first undefined operand is the sum, opposite
infinities have none, and a sum of zero is negative only when both operands are. -/
def add (a b : Seconds) : Seconds :=
  if a.isUndefined then a
  else if b.isUndefined then b
  else if a.isInfinite then
    if b.isInfinite && a.isNegative != b.isNegative then undefinedValue true else a
  else if b.isInfinite then b
  else
    let total := a.units + b.units
    if total = 0 then ofMagnitude (a.isNegative && b.isNegative) 0
    else ofMagnitude (total < 0) (nearestMagnitude total.natAbs 1)

def subtract (a b : Seconds) : Seconds :=
  if b.isUndefined then a.add b else a.add b.negate

instance : Add Seconds := ⟨add⟩
instance : Sub Seconds := ⟨subtract⟩

/-- The sum from the left, beginning with the negative zero, which changes no sum. -/
def sum (values : List Seconds) : Seconds := values.foldl (· + ·) negativeZero

end Seconds

end ProfileTrace
