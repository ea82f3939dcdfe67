import Formulary.Number.Double

namespace Formulary

/-!
# Rounding exact quotients

Every conversion of an exact number to a `Double` goes through one function:
`Double.ofRatio`, the nearest representable number to a quotient of natural
numbers, ties to the even pattern, overflow to infinity.  In the other
direction `Double.toRatio` is the exact value of a finite number.
-/

/-- The integer nearest to `num / den`, a half going to the even neighbour. -/
def roundHalfEven (num den : Nat) : Nat :=
  let quotient := num / den
  let remainder := num % den
  if 2 * remainder < den then quotient
  else if den < 2 * remainder then quotient + 1
  else quotient + quotient % 2

/-- The integer nearest to `num / den`, a half going up. -/
def roundHalfUp (num den : Nat) : Nat :=
  (2 * num + den) / (2 * den)

/-- The quotient `num / den` measured in units of `2 ^ exponent`. -/
def scaledByPow2 (num den : Nat) (exponent : Int) : Nat × Nat :=
  (num * Nat.pow 2 (-exponent).toNat, den * Nat.pow 2 exponent.toNat)

namespace Double

/-- Exponent of the smallest positive number. -/
def leastExponent : Int :=
  -1074

/-- Number of patterns that share one exponent. -/
def binade : Nat :=
  0x10000000000000

/--
Exponent of the last place of `num / den`: the quotient has at most 53 binary
digits before that place, and exactly 53 unless it is subnormal.  The place of
zero is the least one.
-/
def placeOf (num den : Nat) : Int :=
  let guess : Int := (num.log2 : Int) - den.log2 - 53
  let place := if num = 0 ∨ guess < leastExponent then leastExponent else guess
  let (scaled, unit) := scaledByPow2 num den place
  if 2 * binade ≤ scaled / unit then place + 1 else place

/-- Pattern of `significand * 2 ^ exponent`, cut off at infinity. -/
def packMagnitude (significand : Nat) (exponent : Int) : Nat :=
  Min.min ((exponent - leastExponent).toNat * binade + significand)
    infinityMagnitude

/-- The number nearest to `num / den`, with the given sign. -/
def ofRatio (negative : Bool) (num den : Nat) : Double :=
  let place := placeOf num den
  let (scaled, unit) := scaledByPow2 num den place
  ofMagnitude negative (packMagnitude (roundHalfEven scaled unit) place)

/-- The number nearest to an integer. -/
def ofInt (n : Int) : Double :=
  ofRatio (n < 0) n.natAbs 1

/-- Significand and exponent of the absolute value of a finite number. -/
def unpack (x : Double) : Nat × Int :=
  let exponentField := x.magnitude / binade
  let fraction := x.magnitude % binade
  if exponentField = 0 then (fraction, leastExponent)
  else (binade + fraction, leastExponent + (exponentField - 1 : Nat))

/-- The absolute value of a finite number as an exact quotient. -/
def toRatio (x : Double) : Nat × Nat :=
  let (significand, exponent) := x.unpack
  (significand * Nat.pow 2 exponent.toNat, Nat.pow 2 (-exponent).toNat)

/-- The nearest integer, a half going away from zero; for finite numbers. -/
def roundToInt (x : Double) : Int :=
  let (num, den) := x.toRatio
  let rounded := roundHalfUp num den
  if x.isNegative then -(rounded : Int) else rounded

end Double

end Formulary
