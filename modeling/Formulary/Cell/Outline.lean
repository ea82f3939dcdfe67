import Formulary.Cell

namespace Formulary

/-!
# Outlines of cells

How cells are shown inside diagnostic messages.
-/

open Text

/-- The label of a built-in function: its name with a capital. -/
def Builtin.label (builtin : Builtin) : String :=
  builtin.name.capitalize

/-- The label of an infix operation in a program. -/
def BinaryOp.label : BinaryOp → String
  | .add => "Add"
  | .sub => "Subtract"
  | .mul => "Multiply"
  | .div => "Divide"
  | .pow => "Power"
  | .lt => "Lt"
  | .le => "Le"
  | .gt => "Gt"
  | .ge => "Ge"
  | .eq => "Eq"
  | .ne => "Ne"

def Op.outline : Op → Outline
  | .binary op => .atom op.label
  | .negate => .atom "Negate"
  | .square => .atom "Square"
  | .nint => .atom "Nint"
  | .sign => .atom "Sign"
  | .builtin₁ builtin => .tuple "Builtin1" [.atom builtin.label]
  | .builtin₂ builtin => .tuple "Builtin2" [.atom builtin.label]

/-- A value under the label of its type. -/
def Value.outline : Value → Outline
  | .int n => .tuple "Int" [.atom (toString n.toInt)]
  | .double x => .tuple "Double" [.atom (NumberLayout.marked.write x)]
  | .string text => .tuple "String" [.string text]
  | .bool truth => .tuple "Bool" [.atom (if truth then "true" else "false")]

def Cell.outline : Cell → Outline
  | .literal value => value.outline
  | .variable name => .tuple "Variable" [.string name]
  | .lookup name => .tuple "PwlRef" [.string name]
  | .call name arity =>
      .record "FunctionRef" [("name", .string name), ("arity", .nat arity)]
  | .element name rank =>
      .record "ArrayRef" [("name", .string name), ("rank", .nat rank)]
  | .op operation => .tuple "Op" [operation.outline]

end Formulary
