import Formulary.Cell.Outline

namespace Formulary

/-!
# Stack height of programs

Programs have no jumps and every cell takes and leaves a fixed number of
values, so one pass over the cells finds the height of the stack at the end, or
the first cell that lacks operands.
-/

/-- Why a program does not leave exactly one value. -/
inductive HeightFault where
  /-- A cell finds fewer values than it takes. -/
  | underflow (index : Nat) (cell : Cell) (height : Nat)
  /-- The program runs to its end, but leaves another number of values. -/
  | leftover (height : Nat)
deriving Repr, DecidableEq

namespace HeightFault

def message : HeightFault → String
  | .underflow index cell height =>
      "stack-check error: stack underflow at ip=" ++ toString index
        ++ ", cell=" ++ cell.outline.inline
        ++ ", needed " ++ toString cell.pops ++ " items, had " ++
          toString height
  | .leftover height =>
      "stack-check error: program must leave exactly 1 value, leaves " ++
        toString height

end HeightFault

namespace Code

/--
Height after the cells from position `index` on, starting from a given height.
-/
def heightFrom (index height : Nat) : Code → Except HeightFault Nat
  | [] => .ok height
  | cell :: rest =>
      if height < cell.pops then .error (.underflow index cell height)
      else heightFrom (index + 1) (height - cell.pops + cell.pushes) rest

/-- Height at the end of a program, starting from a given height. -/
def height (start : Nat) (code : Code) : Except HeightFault Nat :=
  heightFrom 0 start code

/-- Accept a program that leaves exactly one value on an empty stack. -/
def check (code : Code) : Except HeightFault Unit :=
  match height 0 code with
  | .error fault => .error fault
  | .ok 1 => .ok ()
  | .ok other => .error (.leftover other)

end Code

end Formulary
