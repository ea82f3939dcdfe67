import Formulary.Cell

namespace Formulary

/-!
# Formulas of programs

A postfix program is folded back into an infix formula with parentheses only
where the binding of operators needs them.  The formula compiles to the program
it came from.
-/

/-- How tightly a piece of formula holds together, loosest first. -/
inductive Binding where
  | comparison
  | additive
  | term
  | power
  | unary
  | primary
deriving Repr, DecidableEq

/-- Position in the order of binding. -/
def Binding.strength : Binding → Nat
  | .comparison => 0
  | .additive => 1
  | .term => 2
  | .power => 3
  | .unary => 4
  | .primary => 5

/-- A piece of formula. -/
structure Phrase where
  text : String
  binding : Binding
deriving Repr, DecidableEq

namespace Phrase

/-- The piece as an operand that must bind at least as tightly as `least`. -/
def asOperand (least : Binding) (phrase : Phrase) : String :=
  if least.strength ≤ phrase.binding.strength then phrase.text
  else "(" ++ phrase.text ++ ")"

def primary (text : String) : Phrase :=
  ⟨text, .primary⟩

/-- A name applied to arguments. -/
def call (name : String) (arguments : List Phrase) : Phrase :=
  primary (name ++ "(" ++ ", ".intercalate (arguments.map Phrase.text) ++ ")")

/-- A name with subscripts. -/
def element (name : String) (indices : List Phrase) : Phrase :=
  primary
    (name ++ String.join (indices.map fun index => "[" ++ index.text ++ "]"))

/-- Binding of a formula by its operator, and of its operands. -/
def bindingOf : BinaryOp → Binding × Binding × Binding
  | .add | .sub => (.additive, .additive, .term)
  | .mul | .div => (.term, .term, .power)
  | .pow => (.power, .unary, .power)
  | _ => (.comparison, .additive, .additive)

/-- An operator between its operands. -/
def binary (op : BinaryOp) (left right : Phrase) : Phrase :=
  let (binding, leftLeast, rightLeast) := bindingOf op
  ⟨left.asOperand leftLeast ++ " " ++ op.symbol ++ " " ++
    right.asOperand rightLeast, binding⟩

/-- A literal; negative numbers bind like a negation. -/
def literal (value : Value) : Phrase :=
  match value with
  | .int n => ⟨value.literal, if n < 0 then .unary else .primary⟩
  | .double x => ⟨value.literal, if x.isNegative then .unary else .primary⟩
  | _ => primary value.literal

/-- The formula of a cell applied to the formulas of its operands. -/
def ofCell (cell : Cell) (operands : List Phrase) : Phrase :=
  match cell, operands with
  | .literal value, _ => literal value
  | .variable name, _ => primary name
  | .lookup name, _ => call name operands
  | .call name _, _ => call name operands
  | .element name _, _ => element name operands
  | .op .negate, [operand] => ⟨"-" ++ operand.asOperand .primary, .unary⟩
  | .op .square, [base] => ⟨base.asOperand .unary ++ " ^ 2", .power⟩
  | .op .nint, _ => call "nint" operands
  | .op .sign, _ => call "sign" operands
  | .op (.builtin₁ builtin), _ => call builtin.name operands
  | .op (.builtin₂ builtin), _ => call builtin.name operands
  | .op (.binary op), [left, right] => binary op left right
  | .op operation, _ => primary operation.mnemonic

end Phrase

namespace Code

/--
Fold a program into formulas, the last one first; refused when a cell lacks
operands.
-/
def phrases (stack : List Phrase) : Code → Option (List Phrase)
  | [] => some stack
  | cell :: rest =>
      if stack.length < cell.pops then none
      else
        phrases (Phrase.ofCell cell (stack.take cell.pops).reverse ::
          stack.drop cell.pops) rest

/-- The cells of a program that has no formula. -/
def postfixText (code : Code) : String :=
  "<postfix: " ++ " ".intercalate (code.map Cell.text) ++ ">"

/--
The formula of a program, or its cells when it does not leave exactly one value.
-/
def formula (code : Code) : String :=
  match phrases [] code with
  | some [phrase] => phrase.text
  | _ => postfixText code

end Code

end Formulary
