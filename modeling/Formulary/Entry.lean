import Formulary.Entry.Curve
import Formulary.Entry.Grid

namespace Formulary

/-!
# Entries

A formulary is a collection of named entries: scalars, arrays, functions and
piecewise-linear tables.  Programs inside entries are evaluated on demand.
-/

/-- What a name can stand for. -/
inductive Kind where
  | scalar
  | array
  | function
  | curve
deriving Repr, DecidableEq, Inhabited

/-- Name of a kind in messages. -/
def Kind.name : Kind → String
  | .scalar => "scalar"
  | .array => "array"
  | .function => "function"
  | .curve => "piecewise-linear table"

/-- What a name is bound to. -/
inductive Definition where
  | scalar (code : Code)
  | array (grid : Grid)
  | function (params : List String) (body : Code)
  | curve (curve : Curve)
deriving Repr, DecidableEq, Inhabited

/-- A name and its definition. -/
structure Entry where
  name : String
  definition : Definition
deriving Repr, DecidableEq, Inhabited

namespace Entry

def kind (entry : Entry) : Kind :=
  match entry.definition with
  | .scalar _ => .scalar
  | .array _ => .array
  | .function _ _ => .function
  | .curve _ => .curve

def isScalar (entry : Entry) : Bool :=
  entry.kind = .scalar

/-- The array of an array entry. -/
def grid? (entry : Entry) : Option Grid :=
  match entry.definition with
  | .array grid => some grid
  | _ => none

/-- The size of one dimension of an array entry. -/
def dimension? (entry : Entry) (axis : Nat) : Option Nat := do
  let grid ← entry.grid?
  grid.dims[axis]?

/-- Number of arguments of an entry that can be called. -/
def arity? (entry : Entry) : Option Nat :=
  match entry.definition with
  | .function params _ => some params.length
  | .curve _ => some 1
  | _ => none

/-- Number of values an entry takes from the stack when it is evaluated. -/
def operandCount (entry : Entry) : Nat :=
  match entry.definition with
  | .scalar _ => 0
  | .array grid => grid.rank
  | .function params _ => params.length
  | .curve _ => 1

/-- The scalar entry of a parameter bound to an argument. -/
def argument (name : String) (cell : Cell) : Entry :=
  ⟨name, .scalar [cell]⟩

end Entry

end Formulary
