import Formulary.Operator
import Formulary.Source.Position
import Formulary.Value

namespace Formulary

/-!
# Expressions and statements

The tree form of source text.  Every node carries the position of its first
token; a node with an operator begins where its left operand begins.
-/

/-- An expression. -/
inductive Expr where
  | literal (position : Position) (value : Value)
  /-- Scalar or parameter. -/
  | name (position : Position) (name : String)
  /-- Built-in function, function or table applied to arguments. -/
  | call (position : Position) (name : String) (arguments : List Expr)
  /-- Array element. -/
  | element (position : Position) (name : String) (indices : List Expr)
  | negate (position : Position) (operand : Expr)
  | binary (position : Position) (op : BinaryOp) (left right : Expr)
deriving Repr, Inhabited

namespace Expr

def position : Expr → Position
  | .literal position _ => position
  | .name position _ => position
  | .call position _ _ => position
  | .element position _ _ => position
  | .negate position _ => position
  | .binary position _ _ _ => position

/-- An operator between two expressions. -/
def combine (op : BinaryOp) (left right : Expr) : Expr :=
  .binary left.position op left right

end Expr

/-- What a statement declares or does. -/
inductive Action where
  | scalar (name : String) (value : Expr)
  | function (name : String) (params : List String) (body : Expr)
  /-- A piecewise-linear table. -/
  | curve (name : String) (points : List (Expr × Expr))
  /-- An array; without sizes it has as many elements as initializers. -/
  | array (name : String) (sizes : Option (List Expr)) (elements : List Expr)
  /-- A new program for one element of an array declared before. -/
  | assign (name : String) (indices : List Expr) (value : Expr)
  | print (value : Expr)
deriving Repr, Inhabited

/-- The name a statement declares or changes. -/
def Action.name? : Action → Option String
  | .scalar name _ => some name
  | .function name _ _ => some name
  | .curve name _ => some name
  | .array name _ _ => some name
  | .assign name _ _ => some name
  | .print _ => none

/-- A statement and the position of its first token. -/
structure Statement where
  position : Position
  action : Action
deriving Repr, Inhabited

end Formulary
