import Formulary.Arithmetic
import Formulary.Proofs.Stateful

namespace Formulary

open Stateful

/-!
# Faults of values

What an operation can be refused for: the values it is applied to.  Whether a
name is bound, what it is bound to and how many operands there are is settled
before an operation is applied, so no operation is refused for that.
-/

/--
A fault of the operands that are met, and not of the name or operation they are
met by.
-/
def TypeFault.OfOperands : TypeFault → Prop
  | .mismatch _ _ => True
  | .notNumbers _ _ _ => True
  | .booleanOrder _ => True
  | .incomparable _ _ => True
  | _ => False

namespace Fault

/-- A fault of values or of a limit, which shows only when a program runs. -/
def OfValues : Fault → Prop
  | .arithmetic _ => True
  | .type fault => fault.OfOperands
  | .index _ (.outOfRange _ _ _) => True
  | .curveDomain _ => True
  | .nonTermination _ => True
  | _ => False

/-- A result that is refused, if it is, with faults of one sort. -/
def Only (allowed : Fault → Prop) (result : Except Fault α) : Prop :=
  ∀ fault, result = .error fault → allowed fault

namespace Only

variable {allowed : Fault → Prop}

theorem ok (a : α) : Only allowed (.ok a) := by
  intro fault same
  cases same

theorem error
    {fault : Fault}
    (isAllowed : allowed fault) :
    Only allowed (.error fault : Except Fault α) := by
  intro other same
  cases same
  exact isAllowed

theorem bind
    {first : Except Fault α}
    {rest : α → Except Fault β}
    (firstOnly : Only allowed first)
    (restOnly : ∀ a, Only allowed (rest a)) :
    Only allowed (first >>= rest) := by
  cases first with
  | ok a => exact restOnly a
  | error fault => exact .error (firstOnly fault rfl)

theorem map
    {result : Except Fault α}
    (only : Only allowed result)
    (f : α → β) :
    Only allowed (result.map f) := by
  cases result with
  | ok a => exact .ok (f a)
  | error fault => exact .error (only fault rfl)

theorem mapError
    {wrap : ε → Fault}
    {result : Except ε α}
    (only : ∀ error, result = .error error → allowed (wrap error)) :
    Only allowed (result.mapError wrap) := by
  cases result with
  | ok a => exact .ok a
  | error fault => exact .error (only fault rfl)

end Only

end Fault

open Fault

theorem Double.onlyOfValues_nearestInteger
    (x : Double) :
    Only OfValues x.nearestInteger := by
  unfold nearestInteger
  split
  · exact .ok _
  · exact .error trivial

namespace Cell

theorem onlyOfValues_number (cell : Cell) : Only OfValues cell.number := by
  unfold number
  split
  · exact .ok _
  · exact .error trivial

theorem onlyOfValues_index (cell : Cell) : Only OfValues cell.index := by
  unfold index
  split
  · exact .ok _
  · exact Double.onlyOfValues_nearestInteger _
  · exact .error trivial

theorem onlyOfValues_indices
    (cells : List Cell) :
    Only OfValues (cells.mapM index) := by
  induction cells with
  | nil => exact .ok _
  | cons cell rest inductionHypothesis =>
      rw [List.mapM_cons]
      exact (onlyOfValues_index cell).bind fun _ =>
        inductionHypothesis.bind fun _ => .ok _

end Cell

namespace Op

theorem onlyOfValues_finite
    (op : Op)
    (y : Double) :
    Only OfValues (finite op y) := by
  unfold finite
  split
  · exact .ok _
  · exact .error trivial

theorem onlyOfValues_ofBuiltinResult (result : Except Builtin.Fault Double) :
    Only OfValues (ofBuiltinResult result) := by
  cases result with
  | ok y => exact .ok _
  | error fault => exact .error trivial

theorem onlyOfValues_fits
    (result : Option Int64)
    (fault : ArithmeticFault) :
    Only OfValues (fits result fault) := by
  cases result with
  | some n => exact .ok _
  | none => exact .error trivial

theorem onlyOfValues_numbers
    (op : Op)
    (a b : Cell) :
    Only OfValues (numbers op a b) := by
  unfold numbers
  split
  · exact .ok _
  · exact .error trivial

theorem onlyOfValues_unaryNumber
    {op : Op}
    (single : op.arity = 1)
    (value : Value) :
    Only OfValues (unaryNumber op value) := by
  unfold unaryNumber
  split <;> first
    | exact .ok _
    | exact onlyOfValues_fits _ _
    | exact onlyOfValues_finite _ _
    | exact onlyOfValues_ofBuiltinResult _
    | exact (Double.onlyOfValues_nearestInteger _).map _
    | exact .error trivial
    | cases single

theorem onlyOfValues_unary
    {op : Op}
    (single : op.arity = 1)
    (operand : Cell) :
    Only OfValues (op.unary operand) := by
  unfold unary
  split
  · exact onlyOfValues_unaryNumber single _
  · rw [if_pos single]
    exact .error trivial

theorem onlyOfValues_integerArithmetic
    (op : BinaryOp)
    (a b : Int64) :
    Only OfValues (integerArithmetic op a b) := by
  unfold integerArithmetic
  split
  · exact onlyOfValues_fits _ _
  · exact onlyOfValues_fits _ _
  · exact onlyOfValues_fits _ _
  · split
    · exact .error trivial
    · exact onlyOfValues_fits _ _

theorem onlyOfValues_doubleArithmetic
    (op : BinaryOp)
    (x y : Double) :
    Only OfValues (doubleArithmetic op x y) := by
  unfold doubleArithmetic
  split
  · exact onlyOfValues_finite _ _
  · exact onlyOfValues_finite _ _
  · exact onlyOfValues_finite _ _
  · split
    · exact .error trivial
    · exact onlyOfValues_finite _ _

theorem onlyOfValues_arithmetic
    (op : BinaryOp)
    (a b : Cell) :
    Only OfValues (arithmetic op a b) := by
  unfold arithmetic
  split
  · exact onlyOfValues_integerArithmetic op _ _
  · exact (onlyOfValues_numbers _ a b).bind fun _ =>
      onlyOfValues_doubleArithmetic op _ _

theorem onlyOfValues_decideOrder
    (test : Ordering → Bool)
    (order : Option Ordering) :
    Only OfValues (decideOrder test order) := by
  cases order with
  | some order => exact .ok _
  | none => exact .error trivial

theorem onlyOfValues_compareCells
    (op : BinaryOp)
    (test : Ordering → Bool)
    (a b : Cell) :
    Only OfValues (compareCells op test a b) := by
  unfold compareCells
  split
  · exact onlyOfValues_decideOrder test _
  · exact onlyOfValues_decideOrder test _
  · split
    · exact .ok _
    · exact .ok _
    · exact .error trivial
  · split
    · exact onlyOfValues_decideOrder test _
    · exact .error trivial

theorem onlyOfValues_builtinPair
    (builtin : Builtin)
    (a b : Cell) :
    Only OfValues (builtinPair builtin a b) := by
  unfold builtinPair
  split
  · exact .ok _
  · exact .ok _
  · exact (onlyOfValues_numbers _ a b).bind fun _ =>
      onlyOfValues_ofBuiltinResult _

theorem onlyOfValues_binaryResult
    {op : Op}
    (double : op.arity = 2)
    (a b : Cell) :
    Only OfValues (op.binaryResult a b) := by
  unfold binaryResult
  split
  · exact (onlyOfValues_numbers _ a b).bind fun _ => onlyOfValues_finite _ _
  · split
    · exact onlyOfValues_compareCells _ _ a b
    · exact onlyOfValues_arithmetic _ a b
  · exact onlyOfValues_builtinPair _ a b
  · cases op <;> simp_all [arity]

end Op

namespace Grid

/-- The axes of an array are only refused an index out of range. -/
theorem onlyOfValues_offsetFrom
    (array : String)
    (axis offset : Nat)
    (indices : List Int64)
    (sizes : List Nat) :
    Only OfValues
      ((offsetFrom axis offset indices sizes).mapError (.index array)) := by
  fun_induction offsetFrom axis offset indices sizes with
  | case1 axis offset index indices size sizes inRange inductionHypothesis =>
      exact inductionHypothesis
  | case2 axis offset index indices size sizes outOfRange =>
      exact .error trivial
  | case3 axis offset indices sizes ended => exact .ok _

/--
With as many indices as axes, an element is only refused for an index out of
range.
-/
theorem onlyOfValues_element
    (array : String)
    {grid : Grid}
    {indices : List Int64}
    (ranked : indices.length = grid.rank) :
    Only OfValues ((grid.element indices).mapError (.index array)) := by
  have placed := onlyOfValues_offsetFrom array 0 0 indices grid.dims
  unfold element offset
  rw [if_pos ranked]
  cases outcome : offsetFrom 0 0 indices grid.dims with
  | ok place => exact .ok _
  | error fault =>
      rw [outcome] at placed
      exact .error (placed _ rfl)

end Grid

theorem Curve.onlyOfValues_valueAt
    (curve : Curve)
    (extrapolation : Extrapolation)
    (x : Double) :
    Only OfValues ((curve.valueAt extrapolation x).mapError .curveDomain) :=
  .mapError fun _ _ => trivial

/-- There are as many indices as cells they are read from. -/
theorem Cell.length_indices
    {cells : List Cell}
    {indices : List Int64}
    (read : cells.mapM index = .ok indices) :
    indices.length = cells.length := by
  induction cells generalizing indices with
  | nil =>
      cases read
      rfl
  | cons cell rest inductionHypothesis =>
      rw [List.mapM_cons] at read
      obtain ⟨first, -, more⟩ := except_bind_eq_ok.mp read
      obtain ⟨others, readRest, last⟩ := except_bind_eq_ok.mp more
      cases last
      rw [List.length_cons, List.length_cons, inductionHypothesis readRest]

end Formulary
