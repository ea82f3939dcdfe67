import Formulary.Number.Layout

namespace Formulary

/-!
# Piecewise-linear tables

A curve is a list of breakpoints with strictly increasing abscissas.  Between
two breakpoints its value is interpolated; what it is beyond the first and the
last one is the caller's choice.
-/

/-- A breakpoint. -/
structure Point where
  x : Double
  y : Double
deriving Repr, DecidableEq, Inhabited

/-- A piecewise-linear table. -/
structure Curve where
  points : List Point
deriving Repr, DecidableEq, Inhabited

namespace Curve

/-- Why a list of points is not a table. -/
inductive Fault where
  | empty
  | notFinite (index : Nat)
  | notIncreasing (index : Nat) (x previous : Double)
deriving Repr, DecidableEq

def Fault.message : Fault → String
  | .empty => "a piecewise-linear table needs at least one point"
  | .notFinite index => "point " ++ toString index ++ " is not finite"
  | .notIncreasing index x previous =>
      "x values must be strictly increasing, but point " ++ toString index
        ++ " has x = " ++ NumberLayout.plain.write x
        ++ " after x = " ++ NumberLayout.plain.write previous

/-- Both coordinates are finite. -/
def isFinitePoint (point : Point) : Bool :=
  point.x.isFinite && point.y.isFinite

/-- The first step that does not increase, from a given position on. -/
def stepFault? (index : Nat) : List Point → Option Fault
  | first :: second :: rest =>
      if second.x.le first.x then
        some (.notIncreasing (index + 1) second.x first.x)
      else stepFault? (index + 1) (second :: rest)
  | _ => none

/-- The first reason a list of points is not a table. -/
def fault? (points : List Point) : Option Fault :=
  if points.isEmpty then some .empty
  else
    match points.findIdx? fun point => !isFinitePoint point with
    | some index => some (.notFinite index)
    | none => stepFault? 0 points

/-- A table from its points. -/
def ofPoints (points : List Point) : Except Fault Curve :=
  match fault? points with
  | some fault => .error fault
  | none => .ok ⟨points⟩

/-- What every stored table satisfies. -/
def Valid (curve : Curve) : Prop :=
  fault? curve.points = none

instance (curve : Curve) : Decidable curve.Valid :=
  inferInstanceAs (Decidable (_ = _))

/-- What a table gives outside its breakpoints. -/
inductive Extrapolation where
  /-- Extend the segment at the nearest end. -/
  | linear
  /-- Hold the value at the nearest end. -/
  | clamp
  /-- Refuse. -/
  | refuse
deriving Repr, DecidableEq, Inhabited

/-- Why a table has no value at an abscissa. -/
inductive DomainFault where
  | notFinite (x : Double)
  | empty
  | outside (x first last : Double)
deriving Repr, DecidableEq

def DomainFault.message : DomainFault → String
  | .notFinite x => "x = " ++ NumberLayout.plain.write x ++ " is not finite"
  | .empty => "empty table"
  | .outside x first last =>
      "x = " ++ NumberLayout.plain.write x ++ " is outside ["
        ++ NumberLayout.plain.write first ++ ", " ++
          NumberLayout.plain.write last ++ "]"

/-- The line through two points. -/
def interpolate (a b : Point) (x : Double) : Double :=
  a.y + (x - a.x) * (b.y - a.y) / (b.x - a.x)

/-- The value beyond an end, given the end segment and its outer point. -/
def beyond
    (extrapolation : Extrapolation)
    (a b edge : Point)
    (refusal : DomainFault)
    (x : Double) :
    Except DomainFault Double :=
  match extrapolation with
  | .linear => .ok (interpolate a b x)
  | .clamp => .ok edge.y
  | .refuse => .error refusal

/--
The value at or after `lower`, the last breakpoint known not to exceed `x`: a
breakpoint's own value, or the line to the first breakpoint beyond `x`.
-/
def within (x : Double) (lower : Point) : List Point → Double
  | [] => lower.y
  | upper :: rest =>
      if upper.x.le x then within x upper rest
      else if lower.x.same x then lower.y
      else interpolate lower upper x

/-- The two last points of a list that starts with two points. -/
def lastTwo (first second : Point) : List Point → Point × Point
  | [] => (first, second)
  | third :: rest => lastTwo second third rest

/-- The value of a table at an abscissa. -/
def valueAt (extrapolation : Extrapolation) (curve : Curve) (x : Double) :
    Except DomainFault Double :=
  if !x.isFinite then .error (.notFinite x)
  else
    match curve.points with
    | [] => .error .empty
    | [only] => .ok only.y
    | first :: second :: rest =>
        let (beforeLast, last) := lastTwo first second rest
        let refusal := DomainFault.outside x first.x last.x
        if x.lt first.x then beyond extrapolation first second first refusal x
        else if last.x.lt x then beyond extrapolation beforeLast last
          last refusal x
        else .ok (within x first (second :: rest))

end Curve

end Formulary
