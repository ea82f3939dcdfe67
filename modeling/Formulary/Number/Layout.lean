import Formulary.Number.Decimal

namespace Formulary

/-!
# Number text

Doubles are written with the shortest digits that read back.  The two layouts
differ in where positional writing ends and in whether a whole number keeps a
point.
-/

/-- How the digits of a double are laid out. -/
structure NumberLayout where
  /--
  Positional writing is used while the point stands strictly after the first
  bound and at most at the second, counted from the first digit.
  -/
  positional : Option (Int × Int)
  /-- Whole numbers end in `.0`. -/
  wholePoint : Bool
deriving Repr, DecidableEq

namespace NumberLayout

/--
Always positional, and whole numbers without a point: `1`, `-0`, `0.0000001`.
-/
def plain : NumberLayout :=
  ⟨none, false⟩

/--
A point or an exponent marks every finite number as a double: positional from
`0.0001` to below `10 ^ 16`, with an exponent elsewhere.
-/
def marked : NumberLayout :=
  ⟨some (-4, 16), true⟩

/-- Positional writing, with the point after the given number of digits. -/
def positionalText
    (wholePoint : Bool)
    (digits : List Char)
    (point : Int) :
    List Char :=
  let zeros (n : Int) := List.replicate n.toNat '0'
  if point ≤ 0 then "0.".toList ++ zeros (-point) ++ digits
  else if digits.length ≤ point then
    digits ++ zeros (point - digits.length) ++
      (if wholePoint then ".0".toList else [])
  else digits.take point.toNat ++ '.' :: digits.drop point.toNat

/-- One digit, the others after a point, and the exponent: `1.5e-7`. -/
def exponentText (digits : List Char) (point : Int) : List Char :=
  let fraction := digits.drop 1
  digits.take 1 ++ (if fraction.isEmpty then [] else '.' :: fraction)
    ++ 'e' :: (toString (point - 1)).toList

/-- Text of a nonzero decimal. -/
def decimalText (layout : NumberLayout) (d : Decimal) : List Char :=
  let digits := Nat.toDigits 10 d.digits
  let point : Int := d.exponent + digits.length
  let isPositional :=
    match layout.positional with
    | none => true
    | some (after, upTo) => after < point && point ≤ upTo
  if isPositional then positionalText layout.wholePoint digits point
  else exponentText digits point

/-- Text of a double. -/
def write (layout : NumberLayout) (x : Double) : String :=
  if x.isNaN then "NaN"
  else
    let body :=
      if !x.isFinite then "inf".toList
      else if x.magnitude =
        0 then (if layout.wholePoint then "0.0" else "0").toList
      else layout.decimalText (Decimal.shortest x)
    String.ofList (if x.isNegative then '-' :: body else body)

end NumberLayout

namespace Double

/--
Decimal text with an optional sign, or one of the names of infinity and NaN.
-/
def read? (text : List Char) : Option Double :=
  let (negative, body) :=
    match text with
    | '-' :: rest => (true, rest)
    | '+' :: rest => (false, rest)
    | _ => (false, text)
  let name := body.map Char.toLower
  if name = "inf".toList ∨ name = "infinity".toList then
    some (infinity negative)
  else if name = "nan".toList then some (if negative then nan.neg else nan)
  else (Decimal.read? body).map (Decimal.toDouble negative)

end Double

end Formulary
