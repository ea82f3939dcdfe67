import Formulary.Number.Rounding

namespace Formulary

/-!
# Decimal numbers

A `Decimal` is a natural number of units of a power of ten.  This module reads
decimal text, rounds decimals to doubles, and finds the shortest decimal that
reads back to a given double.
-/

/-- The number `digits * 10 ^ exponent`. -/
structure Decimal where
  digits : Nat
  exponent : Int
deriving Repr, DecidableEq, Inhabited

namespace Decimal

/-- The decimal as an exact quotient. -/
def toRatio (d : Decimal) : Nat × Nat :=
  (d.digits * Nat.pow 10 d.exponent.toNat, Nat.pow 10 (-d.exponent).toNat)

/-- Number of decimal digits of a natural number; zero has one. -/
def digitCount (n : Nat) : Nat :=
  (Nat.toDigits 10 n).length

/--
The double nearest to a decimal.  Decimals of `10 ^ 311` and more overflow, and
those below `10 ^ -330` vanish, whatever their digits, so no large power is
computed for them.
-/
def toDouble (negative : Bool) (d : Decimal) : Double :=
  let scale : Int := d.exponent + digitCount d.digits
  if d.digits = 0 ∨ scale < -330 then Double.ofMagnitude negative 0
  else if 311 < scale then Double.infinity negative
  else
    let (num, den) := d.toRatio
    Double.ofRatio negative num den

/-- The value of an ASCII digit. -/
def digitValue (c : Char) : Nat :=
  c.toNat - '0'.toNat

/-- The number written by a run of decimal digits. -/
def ofDigits (digits : List Char) : Nat :=
  digits.foldl (fun value digit => 10 * value + digitValue digit) 0

/-- A decimal from its whole part, its fraction and its exponent. -/
def ofParts (whole fraction : List Char) (exponent : Int) : Decimal :=
  { digits := ofDigits (whole ++ fraction)
    exponent := exponent - fraction.length }

/-- An optionally signed run of at least one digit, read to the end. -/
def readExponent? (text : List Char) : Option Int :=
  let (negative, digits) :=
    match text with
    | '-' :: rest => (true, rest)
    | '+' :: rest => (false, rest)
    | _ => (false, text)
  if digits.isEmpty || !digits.all Char.isDigit then none
  else if negative then some (-(ofDigits digits : Int))
  else some (ofDigits digits)

/--
Decimal text without a sign: digits with at most one point among them and at
least one digit, then perhaps an exponent.
-/
def read? (text : List Char) : Option Decimal :=
  let whole := text.takeWhile Char.isDigit
  let afterWhole := text.dropWhile Char.isDigit
  let (fraction, afterFraction) :=
    match afterWhole with
    | '.' :: rest => (rest.takeWhile Char.isDigit, rest.dropWhile Char.isDigit)
    | _ => ([], afterWhole)
  if whole.isEmpty && fraction.isEmpty then none
  else
    match afterFraction with
    | [] => some (ofParts whole fraction 0)
    | mark :: rest =>
        if mark = 'e' ∨ mark = 'E' then
          (readExponent? rest).map (ofParts whole fraction) else none

/--
Distance between two quotients, measured in units of the product of their
denominators.
-/
def distance (a b : Nat × Nat) : Nat :=
  let left := a.1 * b.2
  let right := b.1 * a.2
  (left - right) + (right - left)

/--
The neighbour of `x` on the grid of multiples of `10 ^ exponent` that reads
back to `x`.  When both do, the nearer one, and of two equally near the larger.
-/
def onGrid? (x : Double) (exponent : Int) : Option Decimal :=
  let (num, den) := x.toRatio
  let below : Nat :=
    num * Nat.pow 10 (-exponent).toNat / (den * Nat.pow 10 exponent.toNat)
  let lower : Decimal := ⟨below, exponent⟩
  let upper : Decimal := ⟨below + 1, exponent⟩
  let readsBack (d : Decimal) : Bool := d.toDouble false == x.abs
  match readsBack lower, readsBack upper with
  | true, true =>
      if distance lower.toRatio (num, den) * upper.toRatio.2
          < distance upper.toRatio (num, den) * lower.toRatio.2 then
        some lower
      else some upper
  | true, false => some lower
  | false, true => some upper
  | false, false => none

/-- An exponent of ten at which `x` is less than a few units. -/
def coarseExponent (x : Double) : Int :=
  let (significand, exponent) := x.unpack
  (exponent + significand.log2 + 1) * 30103 / 100000 + 1

/-- The double itself, written out in full. -/
def exact (x : Double) : Decimal :=
  let (significand, exponent) := x.unpack
  ⟨significand * Nat.pow 2 exponent.toNat * Nat.pow 5 (-exponent).toNat,
    Min.min exponent 0⟩

/--
The decimal with the fewest digits that reads back to the absolute value of a
finite `x`, and of those the nearest one.  Twenty grids below the coarse
exponent reach the seventeen digits that always suffice.
-/
def shortest (x : Double) : Decimal :=
  let coarse := coarseExponent x
  ((List.range 20).findSome? fun (step : Nat) => onGrid? x (coarse - step)).getD
    (exact x)

end Decimal

end Formulary
