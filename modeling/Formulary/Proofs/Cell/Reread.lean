import Formulary.Cell
import Mathlib.Data.List.Infix

namespace Formulary

/-!
# Programs read back from their formulas

A negated zero is folded into the literal zero, so the formula of a zero that is
negated by an operation of its own is `-0`, and reads back as a zero.  Reading a
formula back drops such a negation and keeps every other cell.
-/

namespace Code

/-- The cell of the integer zero. -/
def zero : Cell :=
  .literal (.int 0)

/-- The cells behind a cell that may be a zero, as they are read back. -/
def rereadAfter (zeroBefore : Bool) : Code → Code
  | [] => []
  | cell :: rest =>
      if zeroBefore = true ∧ cell = .op .negate then rereadAfter false rest
      else cell :: rereadAfter (cell = zero) rest

/-- A program as it is read back from its formula. -/
def reread (code : Code) : Code :=
  rereadAfter false code

/--
Whether the last cell is a zero, given whether the one before the first is.
-/
def endsInZero (zeroBefore : Bool) : Code → Bool
  | [] => zeroBefore
  | cell :: rest => endsInZero (cell = zero) rest

@[simp]
theorem endsInZero_concat
    (zeroBefore : Bool)
    (front : Code)
    (cell : Cell) :
    endsInZero zeroBefore (front ++ [cell]) = (cell = zero) := by
  induction front generalizing zeroBefore with
  | nil => simp [endsInZero]
  | cons first rest inductionHypothesis =>
      simpa [endsInZero] using inductionHypothesis (first = zero)

/--
The last cells are read back as their position behind the first ones says.
-/
theorem rereadAfter_append
    (zeroBefore : Bool)
    (front rest : Code) :
    rereadAfter zeroBefore (front ++ rest) =
      rereadAfter zeroBefore front ++
        rereadAfter (endsInZero zeroBefore front) rest := by
  induction front generalizing zeroBefore with
  | nil => rfl
  | cons cell others inductionHypothesis =>
      simp only [List.cons_append, rereadAfter, endsInZero]
      split
      · rename_i dropped
        have notZero : (decide (Cell.op .negate = zero)) = false := by decide
        rw [inductionHypothesis, dropped.2, notZero]
      · rw [inductionHypothesis, List.cons_append]

/-- A program that does not start with a negation. -/
def StartsFresh (code : Code) : Prop :=
  ∀ cell ∈ code.head?, cell ≠ .op .negate

theorem StartsFresh.append
    {front rest : Code}
    (freshFront : front.StartsFresh)
    (freshRest : rest.StartsFresh) :
    StartsFresh (front ++ rest) := by
  cases front with
  | nil => exact freshRest
  | cons cell others => exact freshFront

theorem StartsFresh.append_of_ne_nil
    {front : Code}
    (fresh : front.StartsFresh)
    (given : front ≠ [])
    (rest : Code) :
    StartsFresh (front ++ rest) := by
  cases front with
  | nil => exact absurd rfl given
  | cons cell others => exact fresh

theorem startsFresh_flatten
    {codes : List Code}
    (fresh : ∀ code ∈ codes, code.StartsFresh) :
    StartsFresh codes.flatten := by
  induction codes with
  | nil => simp [StartsFresh]
  | cons code rest inductionHypothesis =>
      rw [List.flatten_cons]
      exact (fresh code List.mem_cons_self).append
        (inductionHypothesis fun other member =>
          fresh other (List.mem_cons_of_mem code member))

theorem rereadAfter_of_startsFresh
    {code : Code}
    (fresh : code.StartsFresh)
    (zeroBefore : Bool) :
    rereadAfter zeroBefore code = code.reread := by
  cases code with
  | nil => rfl
  | cons cell rest =>
      have notNegate : cell ≠ .op .negate := fresh cell rfl
      simp [reread, rereadAfter, notNegate]

/-- Programs that follow each other are read back one by one. -/
theorem reread_append
    (front : Code)
    {rest : Code}
    (fresh : rest.StartsFresh) :
    (front ++ rest).reread = front.reread ++ rest.reread := by
  rw [reread, rereadAfter_append, rereadAfter_of_startsFresh fresh]
  rfl

/-- An operation other than a negation is kept. -/
theorem reread_concat
    (front : Code)
    {cell : Cell}
    (notNegate : cell ≠ .op .negate) :
    (front ++ [cell]).reread = front.reread ++ [cell] := by
  have fresh : StartsFresh [cell] := by
    intro first isFirst
    cases isFirst
    exact notNegate
  rw [reread_append front fresh]
  simp [reread, rereadAfter]

/-- A negation is kept behind everything but a zero. -/
theorem reread_negate
    {front : Code}
    (notZero : endsInZero false front = false) :
    (front ++ [Cell.op .negate]).reread = front.reread ++ [.op .negate] := by
  rw [reread, rereadAfter_append, notZero]
  simp [reread, rereadAfter]

@[simp]
theorem reread_push (value : Value) : (push value).reread = push value := by
  simp [push, reread, rereadAfter]

theorem length_rereadAfter_le
    (zeroBefore : Bool)
    (code : Code) :
    (rereadAfter zeroBefore code).length ≤ code.length := by
  induction code generalizing zeroBefore with
  | nil => exact Nat.le_refl 0
  | cons cell rest inductionHypothesis =>
      simp only [rereadAfter]
      split
      · have shorter := inductionHypothesis false
        simp only [List.length_cons]
        omega
      · simpa using inductionHypothesis _

/-- Cells are read back as they are unless a negation follows a zero. -/
theorem rereadAfter_eq_self_iff
    (zeroBefore : Bool)
    (code : Code) :
    rereadAfter zeroBefore code = code ↔
      (zeroBefore = true → code.StartsFresh) ∧
        ¬ [zero, .op .negate] <:+: code := by
  induction code generalizing zeroBefore with
  | nil => simp [rereadAfter, StartsFresh]
  | cons cell rest inductionHypothesis =>
      have pair :
          [zero, .op .negate] <:+: cell :: rest ↔
            (cell = zero ∧ ¬ StartsFresh rest) ∨
              [zero, .op .negate] <:+: rest := by
        rw [List.infix_cons_iff, List.cons_prefix_cons,
          List.singleton_prefix_iff_head?_eq_some]
        simp only [StartsFresh, Option.mem_def, not_forall, not_not,
          exists_prop, exists_eq_right, eq_comm]
      rw [pair]
      simp only [rereadAfter]
      split
      · rename_i dropped
        have shorter := length_rereadAfter_le false rest
        constructor
        · intro same
          have sameLength := congrArg List.length same
          simp only [List.length_cons] at sameLength
          omega
        · rintro ⟨fresh, -⟩
          exact absurd dropped.2 (fresh dropped.1 cell rfl)
      · rename_i kept
        rw [List.cons.injEq, inductionHypothesis]
        have fresh : zeroBefore = true → StartsFresh (cell :: rest) := by
          intro isZero first isFirst isNegate
          cases isFirst
          exact kept ⟨isZero, isNegate⟩
        simp only [decide_eq_true_eq, not_or, not_and, not_not, true_and]
        exact ⟨fun kept => ⟨fresh, kept⟩, fun kept => kept.2⟩

/-- The programs that are read back as they are. -/
theorem reread_eq_self_iff (code : Code) :
    code.reread = code ↔ ¬ [zero, .op .negate] <:+: code := by
  rw [reread, rereadAfter_eq_self_iff]
  simp

end Code

end Formulary
