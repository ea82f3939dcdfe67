import Formulary.Snapshot.Wire

namespace Formulary

/-!
# The byte format of entries

Programs are stored as they are; arrays and tables are checked when they are
read.
-/

namespace Wire

def builtin : Wire Builtin :=
  enum Builtin.all

/-- Operations without a built-in function, in the order of their numbers. -/
def plainOps : List Op :=
  [.binary .add, .binary .sub, .binary .mul, .binary .div, .binary .pow,
   .negate, .square, .nint, .sign, .binary .lt, .binary .le, .binary .gt,
   .binary .ge, .binary .eq, .binary .ne]

def op : Wire Op where
  write
    | .builtin₁ function => tag.write 15 ++ builtin.write function
    | .builtin₂ function => tag.write 16 ++ builtin.write function
    | other => tag.write (plainOps.idxOf other)
  read := readTagged fun
    | 15 => some (alternative builtin Op.builtin₁)
    | 16 => some (alternative builtin Op.builtin₂)
    | number =>
        plainOps[number]?.map fun operation bytes => .ok (operation, bytes)

/-- A name with a number. -/
def counted : Wire (String × Nat) :=
  pair string nat

def cell : Wire Cell where
  write
    | .literal (.int n) => tag.write 0 ++ int.write n
    | .literal (.double x) => tag.write 1 ++ double.write x
    | .literal (.string text) => tag.write 2 ++ string.write text
    | .literal (.bool truth) => tag.write 3 ++ bool.write truth
    | .variable name => tag.write 4 ++ string.write name
    | .lookup name => tag.write 5 ++ string.write name
    | .call name arity => tag.write 6 ++ counted.write (name, arity)
    | .element name rank => tag.write 7 ++ counted.write (name, rank)
    | .op operation => tag.write 8 ++ op.write operation
  read := readTagged fun
    | 0 => some (alternative int fun n => .literal (.int n))
    | 1 => some (alternative double fun x => .literal (.double x))
    | 2 => some (alternative string fun text => .literal (.string text))
    | 3 => some (alternative bool fun truth => .literal (.bool truth))
    | 4 => some (alternative string Cell.variable)
    | 5 => some (alternative string Cell.lookup)
    | 6 => some (alternative counted fun (name, arity) => .call name arity)
    | 7 => some (alternative counted fun (name, rank) => .element name rank)
    | 8 => some (alternative op Cell.op)
    | _ => none

def code : Wire Code :=
  list cell

/-- Sizes and elements; refused unless they fit each other. -/
def grid : Wire Grid :=
  via (pair (list nat) (list code))
    (fun array => (array.dims, array.elements.toList))
    (fun (dims, elements) =>
      let array : Grid := ⟨dims, elements.toArray⟩
      if array.Valid then some array else none)

def point : Wire Point :=
  via (pair double double) (fun p => (p.x, p.y)) (fun (x, y) => some ⟨x, y⟩)

/-- Breakpoints; refused unless they make a table. -/
def curve : Wire Curve :=
  via (list point) Curve.points (fun points => (Curve.ofPoints points).toOption)

/-- The parameters and the body of a function. -/
def function : Wire (List String × Code) :=
  pair (list string) code

def definition : Wire Definition where
  write
    | .scalar program => tag.write 0 ++ code.write program
    | .array array => tag.write 1 ++ grid.write array
    | .function params body => tag.write 2 ++ function.write (params, body)
    | .curve table => tag.write 3 ++ curve.write table
  read := readTagged fun
    | 0 => some (alternative code Definition.scalar)
    | 1 => some (alternative grid Definition.array)
    | 2 =>
        some (alternative function fun (params, body) => .function params body)
    | 3 => some (alternative curve Definition.curve)
    | _ => none

def entry : Wire Entry :=
  via (pair string definition)
    (fun item => (item.name, item.definition))
    (fun (name, meaning) => some ⟨name, meaning⟩)

/-- The entries of a snapshot. -/
def entries : Wire (List Entry) :=
  list entry

end Wire

end Formulary
