import Formulary.Failure

namespace Formulary

/-!
# The operand stack
-/

/-- Cells in the order in which they would be popped. -/
structure Stack where
  cells : List Cell
deriving Repr, DecidableEq, Inhabited

namespace Stack

def empty : Stack :=
  ⟨[]⟩

def depth (stack : Stack) : Nat :=
  stack.cells.length

def isEmpty (stack : Stack) : Bool :=
  stack.cells.isEmpty

def push (stack : Stack) (cell : Cell) : Stack :=
  ⟨cell :: stack.cells⟩

/-- Push cells, the last one ending on top. -/
def pushAll (stack : Stack) (cells : List Cell) : Stack :=
  ⟨cells.reverse ++ stack.cells⟩

def peek? (stack : Stack) : Option Cell :=
  stack.cells.head?

/-- Take the top cell. -/
def pop (stack : Stack) : Except Fault (Cell × Stack) :=
  match stack.cells with
  | [] => .error (.stackUnderflow 1 0)
  | cell :: rest => .ok (cell, ⟨rest⟩)

/--
Take several cells from the top, given in the order in which they were pushed.
-/
def popMany (stack : Stack) (count : Nat) : Except Fault (List Cell × Stack) :=
  if stack.depth < count then .error (.stackUnderflow count stack.depth)
  else .ok ((stack.cells.take count).reverse, ⟨stack.cells.drop count⟩)

/-- Drop cells from the top until at most `depth` are left. -/
def truncate (stack : Stack) (depth : Nat) : Stack :=
  ⟨stack.cells.drop (stack.depth - depth)⟩

/-- The cells in the order in which they were pushed. -/
def toList (stack : Stack) : List Cell :=
  stack.cells.reverse

@[simp]
theorem toList_empty : empty.toList = [] :=
  rfl

@[simp]
theorem length_toList (stack : Stack) : stack.toList.length = stack.depth := by
  simp [toList, depth]

@[simp]
theorem toList_push (stack : Stack) (cell : Cell) :
    (stack.push cell).toList = stack.toList ++ [cell] := by
  simp [toList, push]

@[simp]
theorem toList_pushAll (stack : Stack) (cells : List Cell) :
    (stack.pushAll cells).toList = stack.toList ++ cells := by
  simp [toList, pushAll]

/-- Cutting a stack back keeps the cells that were pushed first. -/
theorem toList_truncate (stack : Stack) (depth : Nat) :
    (stack.truncate depth).toList = stack.toList.take depth := by
  simp [toList, truncate, Stack.depth, List.take_reverse]

end Stack

end Formulary
