import Formulary.Cell

namespace Formulary

/-!
# Arrays

A grid holds one program per element, stored row by row: the last index varies
fastest.
-/

/-- Why an index tuple does not address an element. -/
inductive IndexFault where
  | rank (expected found : Nat)
  | outOfRange (axis : Nat) (index : Int64) (size : Nat)
deriving Repr, DecidableEq

def IndexFault.message : IndexFault → String
  | .rank expected found =>
      "expected " ++ toString expected ++ " indices, got " ++ toString found
  | .outOfRange axis index size =>
      "index " ++ toString index.toInt ++ " on dimension " ++ toString axis
        ++ " is outside the valid range 0.." ++ toString (size - 1)

/-- An array of programs. -/
structure Grid where
  dims : List Nat
  elements : Array Code
deriving Repr, DecidableEq, Inhabited

namespace Grid

/-- Highest number of dimensions. -/
def maxRank : Nat :=
  8

/-- Number of values of a machine word. -/
def wordSize : Nat :=
  0x10000000000000000

/-- Number of elements of an array with the given sizes. -/
def capacity (dims : List Nat) : Nat :=
  dims.foldl (· * ·) 1

/--
The element count, refused when any product along the way exceeds a machine
word.
-/
def checkedCapacity (dims : List Nat) : Option Nat :=
  dims.foldlM (fun total size =>
    if total * size < wordSize then some (total * size) else none) 1

/-- What every stored array satisfies. -/
structure Valid (grid : Grid) : Prop where
  ranked : 1 ≤ grid.dims.length ∧ grid.dims.length ≤ maxRank
  positive : ∀ size ∈ grid.dims, 1 ≤ size
  filled : checkedCapacity grid.dims = some grid.elements.size

instance (grid : Grid) : Decidable grid.Valid :=
  decidable_of_iff
    ((1 ≤ grid.dims.length ∧ grid.dims.length ≤ maxRank) ∧
      (∀ size ∈ grid.dims, 1 ≤ size)
      ∧ checkedCapacity grid.dims = some grid.elements.size)
    ⟨fun ⟨ranked, positive, filled⟩ => ⟨ranked, positive, filled⟩,
      fun valid => ⟨valid.ranked, valid.positive, valid.filled⟩⟩

/-- The element that fills places without an initializer. -/
def blank : Code :=
  Code.push (.int 0)

/--
An array of the given sizes; missing elements are zero and surplus ones are
dropped.
-/
def ofElements (dims : List Nat) (elements : List Code) : Grid :=
  let total := capacity dims
  { dims := dims
    elements := (elements.take total ++
      List.replicate (total - elements.length) blank).toArray }

/-- A grid has as many elements as its sizes say. -/
@[simp]
theorem size_ofElements (dims : List Nat) (elements : List Code) :
    (ofElements dims elements).elements.size = capacity dims := by
  simp only [ofElements, List.size_toArray, List.length_append,
    List.length_take, List.length_replicate]
  omega

def rank (grid : Grid) : Nat :=
  grid.dims.length

/--
Row-major offset of an index tuple, given the offset of the axes before it.
The first index out of range is reported.
-/
def offsetFrom
    (axis offset : Nat) :
    List Int64 → List Nat → Except IndexFault Nat
  | index :: indices, size :: sizes =>
      if 0 ≤ index.toInt ∧ index.toInt < size then
        offsetFrom (axis + 1) (offset * size + index.toInt.toNat) indices sizes
      else .error (.outOfRange axis index size)
  | _, _ => .ok offset

/-- Row-major offset of an index tuple. -/
def offset (grid : Grid) (indices : List Int64) : Except IndexFault Nat :=
  if indices.length = grid.rank then offsetFrom 0 0 indices grid.dims
  else .error (.rank grid.rank indices.length)

/-- Digits of an offset in the mixed radix of sizes given last axis first. -/
def digits (offset : Nat) : List Nat → List Nat
  | [] => []
  | size :: sizes => offset % size :: digits (offset / size) sizes

/-- The index tuple at an offset. -/
def indicesAt (grid : Grid) (offset : Nat) : List Nat :=
  (digits offset grid.dims.reverse).reverse

/-- The program at an index tuple. -/
def element (grid : Grid) (indices : List Int64) : Except IndexFault Code :=
  (grid.offset indices).map fun offset => grid.elements.getD offset blank

/-- Replace the program at an index tuple. -/
def set
    (grid : Grid)
    (indices : List Int64)
    (code : Code) :
    Except IndexFault Grid :=
  (grid.offset indices).map fun offset =>
    { grid with elements := grid.elements.setIfInBounds offset code }

end Grid

end Formulary
