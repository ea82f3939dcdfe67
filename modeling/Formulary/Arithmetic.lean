import Formulary.Failure

namespace Formulary

/-!
# Arithmetic of cells

Two integers give an integer for `+ - * /`, with division toward zero; a double
on either side promotes both.  Integer overflow, division by zero and results
that are not finite are failures.
-/

/-- The integer nearest to a double, a half going away from zero. -/
def Double.nearestInteger (x : Double) : Except Fault Int64 :=
  match x.toInt64? with
  | some n => .ok n
  | none => .error (.arithmetic (.notAnInteger x))

namespace Cell

/-- The number in a numeric cell. -/
def number? : Cell → Option Double
  | .literal value => value.asDouble?
  | _ => none

/-- Read a cell as a number. -/
def number (cell : Cell) : Except Fault Double :=
  match cell.number? with
  | some x => .ok x
  | none => .error (.type (.mismatch "a number" cell.typeName))

/--
Read a cell as an array index; doubles are rounded to the nearest integer.
-/
def index (cell : Cell) : Except Fault Int64 :=
  match cell with
  | .literal (.int n) => .ok n
  | .literal (.double x) => x.nearestInteger
  | other => .error (.type (.mismatch "an integer index" other.typeName))

/-- Read a cell as the result of an evaluation. -/
def result (cell : Cell) : Except Fault Value :=
  match cell with
  | .literal value => .ok value
  | other => .error (.type (.mismatch "a value" other.typeName))

end Cell

namespace Op

/-- Results that are not finite are refused. -/
def finite (op : Op) (y : Double) : Except Fault Value :=
  if y.isFinite then .ok (.double y) else .error (.arithmetic (.notFinite op))

/-- The value of a built-in function. -/
def ofBuiltinResult : Except Builtin.Fault Double → Except Fault Value
  | .ok y => .ok (.double y)
  | .error fault => .error (.arithmetic (.builtin fault))

/-- An integer result that may not fit. -/
def fits
    (result : Option Int64)
    (fault : ArithmeticFault) :
    Except Fault Value :=
  match result with
  | some n => .ok (.int n)
  | none => .error (.arithmetic fault)

/-- An operation on a number. -/
def unaryNumber (op : Op) (value : Value) : Except Fault Value :=
  match op, value with
  | .negate, .int n => fits (checkedNeg n) (.negationOverflow n)
  | .negate, .double x => .ok (.double x.neg)
  | .square, .int n => fits (checkedMul n n) (.overflow .mul n n)
  | .square, .double x => finite .square (x * x)
  | .nint, .int n | .builtin₁ .nint, .int n => .ok (.int n)
  | .nint, .double x | .builtin₁ .nint, .double x => x.nearestInteger.map .int
  | .sign, .int n | .builtin₁ .sign, .int n =>
      .ok (.int (Int64.ofInt n.toInt.sign))
  | .sign, .double x | .builtin₁ .sign, .double x =>
      .ok (.int (Int64.ofInt x.signum))
  | .builtin₁ .abs, .int n => fits (checkedAbs n) (.absOverflow n)
  | .builtin₁ builtin, .int n =>
      ofBuiltinResult (builtin.apply₁ (Double.ofInt64 n))
  | .builtin₁ builtin, .double x => ofBuiltinResult (builtin.apply₁ x)
  | .binary _, _ | .builtin₂ _, _ => .error (.type (.notUnary op))
  | _, other => .error (.type (.mismatch "a number" other.typeName))

/-- Apply an operation to one cell. -/
def unary (op : Op) (operand : Cell) : Except Fault Value :=
  match operand with
  | .literal value => unaryNumber op value
  | other =>
      if op.arity = 1 then .error (.type (.mismatch "a number" other.typeName))
      else .error (.type (.notUnary op))

/-- Both operands as doubles. -/
def numbers (op : Op) (a b : Cell) : Except Fault (Double × Double) :=
  match a.number?, b.number? with
  | some x, some y => .ok (x, y)
  | _, _ => .error (.type (.notNumbers op a.typeName b.typeName))

/-- Exact arithmetic of integers. -/
def integerArithmetic (op : BinaryOp) (a b : Int64) : Except Fault Value :=
  match op with
  | .add => fits (checkedAdd a b) (.overflow op a b)
  | .sub => fits (checkedSub a b) (.overflow op a b)
  | .mul => fits (checkedMul a b) (.overflow op a b)
  | _ =>
      if b = 0 then .error (.arithmetic .divisionByZero)
      else fits (checkedDiv a b) (.overflow op a b)

/-- Rounded arithmetic of doubles. -/
def doubleArithmetic (op : BinaryOp) (x y : Double) : Except Fault Value :=
  match op with
  | .add => finite (.binary op) (x + y)
  | .sub => finite (.binary op) (x - y)
  | .mul => finite (.binary op) (x * y)
  | _ =>
      if y.same Double.zero then .error (.arithmetic .divisionByZero)
      else finite (.binary op) (x / y)

/-- The four arithmetic operations. -/
def arithmetic (op : BinaryOp) (a b : Cell) : Except Fault Value :=
  match a, b with
  | .literal (.int x), .literal (.int y) => integerArithmetic op x y
  | _, _ => do
      let (x, y) ← numbers (.binary op) a b
      doubleArithmetic op x y

/-- The power function, which always gives a double. -/
def power (a b : Cell) : Except Fault Value := do
  let (x, y) ← numbers (.binary .pow) a b
  finite (.binary .pow) (x.pow y)

/-- Read a comparison off the order of two operands, if they have one. -/
def decideOrder
    (test : Ordering → Bool)
    (order : Option Ordering) :
    Except Fault Value :=
  match order with
  | some order => .ok (.bool (test order))
  | none => .error (.arithmetic .unordered)

/-- Comparison of two values of comparable types. -/
def compareCells
    (op : BinaryOp)
    (test : Ordering → Bool)
    (a b : Cell) :
    Except Fault Value :=
  match a, b with
  | .literal (.int x), .literal (.int y) =>
      decideOrder test (some (compare x y))
  | .literal (.string x), .literal (.string y) =>
      decideOrder test (some (compare x y))
  | .literal (.bool x), .literal (.bool y) =>
      match op with
      | .eq => .ok (.bool (x = y))
      | .ne => .ok (.bool (x ≠ y))
      | _ => .error (.type (.booleanOrder op))
  | _, _ =>
      match a.number?, b.number? with
      | some x, some y => decideOrder test (x.compare? y)
      | _, _ => .error (.type (.incomparable a.typeName b.typeName))

/-- A built-in function of two arguments; extrema of integers are integers. -/
def builtinPair (builtin : Builtin) (a b : Cell) : Except Fault Value :=
  match builtin, a, b with
  | .max, .literal (.int x), .literal (.int y) =>
      .ok (.int (if x < y then y else x))
  | .min, .literal (.int x), .literal (.int y) =>
      .ok (.int (if y < x then y else x))
  | _, _, _ => do
      let (x, y) ← numbers (.builtin₂ builtin) a b
      ofBuiltinResult (builtin.apply₂ x y)

/-- Apply an operation to two cells. -/
def binaryResult (op : Op) (a b : Cell) : Except Fault Value :=
  match op with
  | .binary .pow => power a b
  | .binary op =>
      match op.comparison? with
      | some test => compareCells op test a b
      | none => arithmetic op a b
  | .builtin₂ builtin => builtinPair builtin a b
  | other => .error (.type (.notBinary other))

end Op

end Formulary
