import Formulary.Number.Rounding

namespace Formulary

/-!
# Checked 64-bit integers

The integers of the language are `Int64` words, but no operation ever wraps:
each one is computed exactly and then either fits or is refused.
-/

/-- The word equal to `n`, if there is one. -/
def checkedInt (n : Int) : Option Int64 :=
  if Int64.minValue.toInt ≤ n ∧ n ≤ Int64.maxValue.toInt then
    some (Int64.ofInt n) else none

/-- The exact operations on words, refused when the result does not fit. -/
def checkedAdd (a b : Int64) : Option Int64 :=
  checkedInt (a.toInt + b.toInt)

@[inherit_doc checkedAdd]
def checkedSub (a b : Int64) : Option Int64 :=
  checkedInt (a.toInt - b.toInt)

@[inherit_doc checkedAdd]
def checkedMul (a b : Int64) : Option Int64 :=
  checkedInt (a.toInt * b.toInt)

/-- Division toward zero by a nonzero word. -/
def checkedDiv (a b : Int64) : Option Int64 :=
  checkedInt (a.toInt.tdiv b.toInt)

@[inherit_doc checkedAdd]
def checkedNeg (a : Int64) : Option Int64 :=
  checkedInt (-a.toInt)

@[inherit_doc checkedAdd]
def checkedAbs (a : Int64) : Option Int64 :=
  checkedInt a.toInt.natAbs

/-- The double nearest to a word. -/
def Double.ofInt64 (n : Int64) : Double :=
  Double.ofInt n.toInt

/-- The word nearest to a double, a half going away from zero. -/
def Double.toInt64? (x : Double) : Option Int64 :=
  if x.isFinite then checkedInt x.roundToInt else none

end Formulary
