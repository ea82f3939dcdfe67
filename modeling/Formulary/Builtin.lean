import Formulary.Number.Layout

namespace Formulary

/-!
# Built-in functions

A fixed table of functions of one or two doubles.  Angles are radians, except
for the functions whose name ends in `d`.  A function is refused outside its
domain and whenever its result is not finite.
-/

/-- A function every formula may call. -/
inductive Builtin where
  | sin
  | cos
  | tan
  | asin
  | acos
  | atan
  | sind
  | cosd
  | tand
  | asind
  | acosd
  | atand
  | sinh
  | cosh
  | tanh
  | exp
  | ln
  | log10
  | sqrt
  | abs
  | floor
  | ceil
  | nint
  | sign
  | atan2
  | atan2d
  | max
  | min
deriving Repr, DecidableEq, Inhabited

namespace Builtin

/-- The whole table. -/
def all : List Builtin :=
  [.sin, .cos, .tan, .asin, .acos, .atan, .sind, .cosd, .tand, .asind, .acosd,
   .atand, .sinh, .cosh, .tanh, .exp, .ln, .log10, .sqrt, .abs, .floor, .ceil,
   .nint, .sign, .atan2, .atan2d, .max, .min]

/-- Source spelling. -/
def name : Builtin → String
  | .sin => "sin"
  | .cos => "cos"
  | .tan => "tan"
  | .asin => "asin"
  | .acos => "acos"
  | .atan => "atan"
  | .sind => "sind"
  | .cosd => "cosd"
  | .tand => "tand"
  | .asind => "asind"
  | .acosd => "acosd"
  | .atand => "atand"
  | .sinh => "sinh"
  | .cosh => "cosh"
  | .tanh => "tanh"
  | .exp => "exp"
  | .ln => "ln"
  | .log10 => "log10"
  | .sqrt => "sqrt"
  | .abs => "abs"
  | .floor => "floor"
  | .ceil => "ceil"
  | .nint => "nint"
  | .sign => "sign"
  | .atan2 => "atan2"
  | .atan2d => "atan2d"
  | .max => "max"
  | .min => "min"

/-- The built-in function of a given name. -/
def ofName? (name : String) : Option Builtin :=
  all.find? fun builtin => builtin.name = name

/-- Every function is found by its name. -/
theorem ofName?_name
    (builtin : Builtin) :
    ofName? builtin.name = some builtin := by
  cases builtin <;> decide

/-- Number of arguments. -/
def arity : Builtin → Nat
  | .atan2 => 2
  | .atan2d => 2
  | .max => 2
  | .min => 2
  | _ => 1

/-- Why a built-in function has no value at its arguments. -/
inductive Fault where
  | outsideUnitInterval (builtin : Builtin) (x : Double)
  | nonPositive (builtin : Builtin) (x : Double)
  | negativeRoot (x : Double)
  | notFinite (builtin : Builtin)
  | wrongArity (builtin : Builtin)
deriving Repr, DecidableEq

namespace Fault

/-- A call as messages show it. -/
def call (builtin : Builtin) (x : Double) : String :=
  builtin.name ++ "(" ++ NumberLayout.plain.write x ++ ")"

def message : Fault → String
  | .outsideUnitInterval builtin x => call builtin x ++ " is outside [-1, 1]"
  | .nonPositive builtin x => call builtin x ++ " of a non-positive number"
  | .negativeRoot x => call .sqrt x ++ " of a negative number"
  | .notFinite builtin => builtin.name ++ " produced a non-finite result"
  | .wrongArity builtin =>
      builtin.name ++
        (if builtin.arity = 2 then " takes 2 arguments"
        else " takes 1 argument")

end Fault

/-- The number one. -/
def one : Double :=
  Double.ofInt 1

/-- Whether a number lies between minus one and one. -/
def inUnitInterval (x : Double) : Bool :=
  one.neg.le x && x.le one

/-- The argument condition of a function of one argument. -/
def domainFault? (builtin : Builtin) (x : Double) : Option Fault :=
  match builtin with
  | .asin | .asind | .acos | .acosd =>
      if inUnitInterval x then none else some (.outsideUnitInterval builtin x)
  | .ln | .log10 =>
      if x.le Double.zero then some (.nonPositive builtin x) else none
  | .sqrt => if x.lt Double.zero then some (.negativeRoot x) else none
  | .atan2 | .atan2d | .max | .min => some (.wrongArity builtin)
  | _ => none

/-- The function of one argument, inside its domain. -/
def compute₁ (builtin : Builtin) (x : Double) : Double :=
  match builtin with
  | .sin => x.lift Float.sin
  | .cos => x.lift Float.cos
  | .tan => x.lift Float.tan
  | .asin => x.lift Float.asin
  | .acos => x.lift Float.acos
  | .atan => x.lift Float.atan
  | .sind => x.toRadians.lift Float.sin
  | .cosd => x.toRadians.lift Float.cos
  | .tand => x.toRadians.lift Float.tan
  | .asind => (x.lift Float.asin).toDegrees
  | .acosd => (x.lift Float.acos).toDegrees
  | .atand => (x.lift Float.atan).toDegrees
  | .sinh => x.lift Float.sinh
  | .cosh => x.lift Float.cosh
  | .tanh => x.lift Float.tanh
  | .exp => x.lift Float.exp
  | .ln => x.lift Float.log
  | .log10 => x.lift Float.log10
  | .sqrt => x.lift Float.sqrt
  | .abs => x.abs
  | .floor => x.lift Float.floor
  | .ceil => x.lift Float.ceil
  | .nint => x.lift Float.round
  | .sign => Double.ofInt x.signum
  | .atan2 | .atan2d | .max | .min => x

/-- Results that are not finite are refused. -/
def finite (builtin : Builtin) (y : Double) : Except Fault Double :=
  if y.isFinite then .ok y else .error (.notFinite builtin)

/-- The value at one argument. -/
def apply₁ (builtin : Builtin) (x : Double) : Except Fault Double :=
  match builtin.domainFault? x with
  | some fault => .error fault
  | none => builtin.finite (builtin.compute₁ x)

/-- The value at two arguments. -/
def apply₂ (builtin : Builtin) (a b : Double) : Except Fault Double :=
  match builtin with
  | .atan2 => builtin.finite (Double.lift₂ Float.atan2 a b)
  | .atan2d => builtin.finite (Double.lift₂ Float.atan2 a b).toDegrees
  | .max => builtin.finite (a.max b)
  | .min => builtin.finite (a.min b)
  | _ => .error (.wrongArity builtin)

end Builtin

end Formulary
