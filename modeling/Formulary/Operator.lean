namespace Formulary

/-!
# Infix operators

The two-place operators of the expression language, shared by its source text
and by compiled programs.
-/

/-- A two-place operator written between its operands. -/
inductive BinaryOp where
  | add
  | sub
  | mul
  | div
  | pow
  | lt
  | le
  | gt
  | ge
  | eq
  | ne
deriving Repr, DecidableEq, Inhabited

namespace BinaryOp

/-- Source spelling. -/
def symbol : BinaryOp → String
  | .add => "+"
  | .sub => "-"
  | .mul => "*"
  | .div => "/"
  | .pow => "^"
  | .lt => "<"
  | .le => "<="
  | .gt => ">"
  | .ge => ">="
  | .eq => "=="
  | .ne => "!="

/-- Name in program listings. -/
def mnemonic : BinaryOp → String
  | .add => "ADD"
  | .sub => "SUB"
  | .mul => "MUL"
  | .div => "DIV"
  | .pow => "POW"
  | .lt => "LT"
  | .le => "LE"
  | .gt => "GT"
  | .ge => "GE"
  | .eq => "EQ"
  | .ne => "NE"

/-- How an operator compares, when it is a comparison. -/
def comparison? : BinaryOp → Option (Ordering → Bool)
  | .lt => some Ordering.isLT
  | .le => some Ordering.isLE
  | .gt => some Ordering.isGT
  | .ge => some Ordering.isGE
  | .eq => some Ordering.isEq
  | .ne => some Ordering.isNe
  | _ => none

/-- Whether an operator compares its operands. -/
def isComparison (op : BinaryOp) : Bool :=
  op.comparison?.isSome

end BinaryOp

end Formulary
