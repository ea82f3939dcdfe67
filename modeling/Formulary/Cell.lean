import Formulary.Builtin
import Formulary.Operator
import Formulary.Text.Outline
import Formulary.Value

namespace Formulary

/-!
# Cells and programs

A compiled formula is a postfix program: a list of cells that push values,
refer to names, or combine the values pushed before them.
-/

/-- An operation on the values on top of the stack. -/
inductive Op where
  | binary (op : BinaryOp)
  | negate
  /-- The square, which keeps integers integral. -/
  | square
  | nint
  | sign
  | builtin₁ (builtin : Builtin)
  | builtin₂ (builtin : Builtin)
deriving Repr, DecidableEq, Inhabited

namespace Op

/-- Number of operands. -/
def arity : Op → Nat
  | .binary _ => 2
  | .builtin₂ _ => 2
  | _ => 1

/-- Name in program listings. -/
def mnemonic : Op → String
  | .binary op => op.mnemonic
  | .negate => "NEG"
  | .square => "SQUARE"
  | .nint => "NINT"
  | .sign => "SIGN"
  | .builtin₁ _ => "BUILTIN1"
  | .builtin₂ _ => "BUILTIN2"

/-- Spelling between operands, for operators that have one. -/
def symbol? : Op → Option String
  | .binary op => some op.symbol
  | _ => none

/-- The symbol, or the listing name of an operation without one. -/
def label (op : Op) : String :=
  op.symbol?.getD op.mnemonic

/-- The operation a call of a built-in function compiles to. -/
def ofBuiltin : Builtin → Op
  | .nint => .nint
  | .sign => .sign
  | builtin =>
      if builtin.arity = 2 then .builtin₂ builtin else .builtin₁ builtin

end Op

/-- One step of a program, or one slot of the operand stack. -/
inductive Cell where
  | literal (value : Value)
  /-- Scalar or parameter. -/
  | variable (name : String)
  /-- Lookup in a piecewise-linear table. -/
  | lookup (name : String)
  /-- Function call with a number of arguments. -/
  | call (name : String) (arity : Nat)
  /-- Array element with a number of indices. -/
  | element (name : String) (rank : Nat)
  | op (operation : Op)
deriving Repr, DecidableEq, Inhabited

namespace Cell

def typeName : Cell → String
  | .literal value => value.typeName
  | .variable _ => "variable reference"
  | .lookup _ => "piecewise-linear reference"
  | .call _ _ => "function reference"
  | .element _ _ => "array reference"
  | .op _ => "operator"

def isLiteral : Cell → Bool
  | .literal _ => true
  | _ => false

/-- Number of values a cell takes from the stack. -/
def pops : Cell → Nat
  | .literal _ => 0
  | .variable _ => 0
  | .lookup _ => 1
  | .call _ arity => arity
  | .element _ rank => rank
  | .op operation => operation.arity

/-- Number of values a cell leaves on the stack. -/
def pushes (_ : Cell) : Nat :=
  1

/-- The cell as listings show it. -/
def text : Cell → String
  | .literal value => value.literal
  | .variable name => name
  | .lookup name => name
  | .call name arity => name ++ "/" ++ toString arity
  | .element name rank => name ++ "[" ++ toString rank ++ "]"
  | .op operation => operation.mnemonic

/-- The name a cell refers to. -/
def reference? : Cell → Option String
  | .variable name => some name
  | .lookup name => some name
  | .call name _ => some name
  | .element name _ => some name
  | _ => none

end Cell

/-- A postfix program. -/
abbrev Code := List Cell

namespace Code

/-- The program that pushes one value. -/
def push (value : Value) : Code :=
  [.literal value]

/-- The literal a program pushes, when it does nothing else. -/
def literal? : Code → Option Value
  | [.literal value] => some value
  | _ => none

end Code

end Formulary
