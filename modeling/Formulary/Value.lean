import Formulary.Number.Integer
import Formulary.Number.Layout
import Formulary.Text.Quoted

namespace Formulary

/-!
# Values

What a formula evaluates to.
-/

/-- The result of evaluating a formula. -/
inductive Value where
  | int (n : Int64)
  | double (x : Double)
  | string (text : String)
  | bool (truth : Bool)
deriving Repr, DecidableEq, Inhabited

namespace Value

/-- Name of the value's type in messages. -/
def typeName : Value → String
  | .int _ => "integer"
  | .double _ => "double"
  | .string _ => "string"
  | .bool _ => "boolean"

def isNumeric : Value → Bool
  | .int _ => true
  | .double _ => true
  | _ => false

def asInt? : Value → Option Int64
  | .int n => some n
  | _ => none

/-- Numeric view; integers are promoted. -/
def asDouble? : Value → Option Double
  | .int n => some (Double.ofInt64 n)
  | .double x => some x
  | _ => none

def asString? : Value → Option String
  | .string text => some text
  | _ => none

/-- Boolean view; an integer is a flag that is set unless it is zero. -/
def asBool? : Value → Option Bool
  | .bool truth => some truth
  | .int n => some (n ≠ 0)
  | _ => none

/-- Text of a value with doubles in the given layout. -/
def writeWith (layout : NumberLayout) : Value → String
  | .int n => toString n.toInt
  | .double x => layout.write x
  | .string text => Text.quote text
  | .bool truth => if truth then "true" else "false"

/-- Text of a value as a report shows it: whole doubles have no point. -/
def text (v : Value) : String :=
  v.writeWith NumberLayout.plain

/-- Text of a value as a literal that reads back with its type. -/
def literal (v : Value) : String :=
  v.writeWith NumberLayout.marked

end Value

end Formulary
