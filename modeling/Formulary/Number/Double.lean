namespace Formulary

/-!
# Binary64 numbers

A `Double` is its 64-bit pattern.  Equality of `Double` values is equality of
patterns, so signed zeros and the payload of a NaN are part of the value.  Sign
changes, classification and the numeric order read the pattern directly; the
rounded operations go through the hardware format.
-/

/-- A binary64 number, given by its bit pattern. -/
structure Double where
  bits : UInt64
deriving Repr, DecidableEq, Inhabited

namespace Double

/-- Pattern of positive infinity; larger magnitudes are NaNs. -/
def infinityMagnitude : Nat :=
  0x7ff0000000000000

/-- Weight of the sign bit. -/
def signWeight : Nat :=
  0x8000000000000000

/-- Whether the sign bit is set. -/
def isNegative (x : Double) : Bool :=
  signWeight ≤ x.bits.toNat

/-- The pattern without its sign bit. -/
def magnitude (x : Double) : Nat :=
  x.bits.toNat % signWeight

/-- A number from its sign and the pattern of its absolute value. -/
def ofMagnitude (negative : Bool) (magnitude : Nat) : Double :=
  ⟨UInt64.ofNat (if negative then signWeight + magnitude else magnitude)⟩

/-- Positive zero. -/
def zero : Double :=
  ofMagnitude false 0

/-- Positive or negative infinity. -/
def infinity (negative : Bool) : Double :=
  ofMagnitude negative infinityMagnitude

/-- The quiet NaN without payload. -/
def nan : Double :=
  ofMagnitude false 0x7ff8000000000000

def isNaN (x : Double) : Bool :=
  infinityMagnitude < x.magnitude

/-- Neither an infinity nor a NaN. -/
def isFinite (x : Double) : Bool :=
  x.magnitude < infinityMagnitude

/-- Position on the number line: both zeros are at the origin. -/
def rank (x : Double) : Int :=
  if x.isNegative then -(x.magnitude : Int) else x.magnitude

/-- Numeric order; a NaN is comparable with nothing. -/
def compare? (x y : Double) : Option Ordering :=
  if x.isNaN || y.isNaN then none else some (compare x.rank y.rank)

/-- The strict order of numbers, false when either is a NaN. -/
def lt (x y : Double) : Bool :=
  !x.isNaN && !y.isNaN && x.rank < y.rank

/-- The order of numbers, false when either is a NaN. -/
def le (x y : Double) : Bool :=
  !x.isNaN && !y.isNaN && x.rank ≤ y.rank

/-- Equality as numbers: the zeros agree, a NaN differs from itself. -/
def same (x y : Double) : Bool :=
  !x.isNaN && !y.isNaN && x.rank == y.rank

/-- The opposite number; only the sign bit changes. -/
def neg (x : Double) : Double :=
  ofMagnitude (!x.isNegative) x.magnitude

/-- The absolute value; only the sign bit changes. -/
def abs (x : Double) : Double :=
  ofMagnitude false x.magnitude

/--
The larger operand, the other one when either is a NaN; of two zeros the second.
-/
def max (x y : Double) : Double :=
  if y.isNaN || y.lt x then x else y

/--
The smaller operand, the other one when either is a NaN; of two zeros the
second.
-/
def min (x y : Double) : Double :=
  if y.isNaN || x.lt y then x else y

/-- The sign as a number: one, minus one, or zero for zeros and NaNs. -/
def signum (x : Double) : Int :=
  if lt zero x then 1 else if lt x zero then -1 else 0

def toFloat (x : Double) : Float :=
  Float.ofBits x.bits

def ofFloat (x : Float) : Double :=
  ⟨x.toBits⟩

/-- Lift a function of the hardware format. -/
def lift (f : Float → Float) (x : Double) : Double :=
  ofFloat (f x.toFloat)

/-- Lift a two-place function of the hardware format. -/
def lift₂ (f : Float → Float → Float) (x y : Double) : Double :=
  ofFloat (f x.toFloat y.toFloat)

instance : Add Double := ⟨lift₂ (· + ·)⟩
instance : Sub Double := ⟨lift₂ (· - ·)⟩
instance : Mul Double := ⟨lift₂ (· * ·)⟩
instance : Div Double := ⟨lift₂ (· / ·)⟩

/-- The power function. -/
def pow (x y : Double) : Double :=
  lift₂ Float.pow x y

/-- Degrees to radians, with the rounded quotient `π / 180`. -/
def toRadians (x : Double) : Double :=
  lift (· * (3.141592653589793 / 180.0)) x

/-- Radians to degrees, with the rounded quotient `180 / π`. -/
def toDegrees (x : Double) : Double :=
  lift (· * 57.29577951308232) x

end Double

end Formulary
