import Formulary.Cell
import Formulary.Text.Column

namespace Formulary

/-!
# Program listings

One line per cell: its position, what it does, and for most operations a remark
on the values it takes and leaves.
-/

open Text

namespace Cell

/-- An operation name and its operand, in columns. -/
def instruction (name operand : String) : String :=
  padRight 12 name ++ operand

/-- An instruction followed by a remark on its stack effect. -/
def remarked (instruction remark : String) : String :=
  padRight 24 instruction ++ "; " ++ remark

/-- The operands of a reference: none, one, or a range of numbered names. -/
def operandNames (stem : String) : Nat → String
  | 0 => ""
  | 1 => stem ++ "1"
  | count => stem ++ "1.." ++ stem ++ toString count

/-- The cell as one line of a listing. -/
def listed : Cell → String
  | .literal value => instruction "PUSH" value.literal
  | .variable name => instruction "LOAD" name
  | .lookup name => remarked (instruction "PWL" name) "( x -- y )"
  | .call name arity =>
      remarked (instruction "CALL" name)
        ("( " ++ operandNames "a" arity ++ " -- v )")
  | .element name rank =>
      remarked (instruction "INDEX" name)
        ("( " ++ operandNames "i" rank ++ " -- v )")
  | .op (.builtin₁ builtin) =>
      remarked (instruction "BUILTIN1" builtin.name)
        ("( x -- " ++ builtin.name ++ "(x) )")
  | .op (.builtin₂ builtin) =>
      remarked (instruction "BUILTIN2" builtin.name)
        ("( a b -- " ++ builtin.name ++ "(a, b) )")
  | .op .square => remarked "SQUARE" "( x -- x*x )"
  | .op (.binary .pow) => remarked "POW" "( a b -- a^b ) double"
  | .op operation => operation.mnemonic

end Cell

namespace Code

/-- The lines of a listing, from a given position on. -/
def listingFrom (margin : String) (position : Nat) : Code → List String
  | [] => []
  | cell :: rest =>
      (margin ++ zeroPadded 4 position ++ "  " ++ cell.listed)
        :: listingFrom margin (position + 1) rest

/-- The listing of a program, indented by pairs of blanks. -/
def listing (indent : Nat) (code : Code) : String :=
  unlines (listingFrom ("".pushn ' ' (2 * indent)) 0 code)

end Code

end Formulary
