import Formulary.Proofs.Compile.Inversion

namespace Formulary

open Stateful

/-!
# Programs of expressions leave one value

The program of an expression takes nothing that it has not pushed itself, and it
leaves one value on whatever it finds.  So the check behind the compiler never
refuses what has been emitted: an expression compiles as soon as its names and
the numbers of their operands are right.
-/

/-- Cells that leave a number of values on whatever they find. -/
def Code.Raises (count : Nat) (code : Code) : Prop :=
  ∀ (index start : Nat) (rest : Code),
    Code.heightFrom index start (code ++ rest) =
      Code.heightFrom (index + code.length) (start + count) rest

namespace Code.Raises

theorem nil : Code.Raises 0 [] :=
  fun _ _ _ => rfl

/-- Cells behind one another. -/
theorem append
    {first second : Nat}
    {code other : Code}
    (raises : Code.Raises first code)
    (further : Code.Raises second other) :
    Code.Raises (first + second) (code ++ other) := by
  intro index start rest
  rw [List.append_assoc, raises, further, List.length_append, Nat.add_assoc,
    Nat.add_assoc]

/-- A cell behind the cells that push its operands. -/
theorem cell
    (cell : Cell)
    {operands : Code}
    (raises : Code.Raises cell.pops operands) :
    Code.Raises 1 (operands ++ [cell]) := by
  intro index start rest
  have enough : ¬ start + cell.pops < cell.pops := by omega
  rw [List.append_assoc, raises]
  simp only [List.cons_append, List.nil_append, Code.heightFrom, if_neg enough,
    Cell.pushes, Nat.add_sub_cancel, List.length_append, List.length_cons,
    List.length_nil]
  rfl

theorem push (value : Value) : Code.Raises 1 (Code.push value) :=
  cell (.literal value) nil

/-- What leaves one value passes the check. -/
theorem check
    {code : Code}
    (raises : Code.Raises 1 code) :
    Code.check code = .ok () := by
  have height : Code.height 0 code = .ok 1 := by
    have ended := raises 0 0 []
    rwa [List.append_nil] at ended
  simp only [Code.check, height]

end Code.Raises

namespace Compile

variable
  {signatures : Signatures}
  {params : List String}

mutual

/-- The program of a tree leaves one value. -/
theorem raises_of_emit
    (tree : Expr)
    {code : Code}
    (compiled : emit signatures params tree = .ok code) :
    Code.Raises 1 code := by
  cases tree with
  | literal position value =>
      cases compiled
      exact .push value
  | name position name =>
      obtain ⟨cell, resolved, last⟩ := except_bind_eq_ok.mp compiled
      cases last
      obtain rfl := variable_of_valueOf (ok_of_anchor resolved)
      exact .cell (.variable name) .nil
  | call position name arguments =>
      obtain ⟨cell, resolved, rest⟩ := except_bind_eq_ok.mp compiled
      obtain ⟨argumentCode, argumentsCompile, last⟩ := except_bind_eq_ok.mp rest
      cases last
      have raises := raises_of_emitAll arguments argumentsCompile
      rw [← pops_of_callCell (ok_of_anchor resolved)] at raises
      exact .cell cell raises
  | element position name indices =>
      obtain ⟨cell, resolved, rest⟩ := except_bind_eq_ok.mp compiled
      obtain ⟨indexCode, indicesCompile, last⟩ := except_bind_eq_ok.mp rest
      cases last
      obtain rfl := element_of_elementCell (ok_of_anchor resolved)
      exact .cell (.element name indices.length)
        (raises_of_emitAll indices indicesCompile)
  | negate position operand =>
      simp only [emit] at compiled
      split at compiled
      · cases compiled
        exact .push _
      · obtain ⟨operandCode, operandCompiles, last⟩ :=
          except_bind_eq_ok.mp compiled
        cases last
        exact .cell (.op .negate) (raises_of_emit operand operandCompiles)
  | binary position op left right =>
      simp only [emit] at compiled
      split at compiled
      · obtain ⟨baseCode, baseCompiles, last⟩ := except_bind_eq_ok.mp compiled
        cases last
        exact .cell (.op .square) (raises_of_emit left baseCompiles)
      · obtain ⟨leftCode, leftCompiles, rest⟩ := except_bind_eq_ok.mp compiled
        obtain ⟨rightCode, rightCompiles, last⟩ := except_bind_eq_ok.mp rest
        cases last
        have operands :=
          (raises_of_emit left leftCompiles).append
            (raises_of_emit right rightCompiles)
        exact .cell (.op (.binary op)) operands

/-- The programs of several trees leave a value each. -/
theorem raises_of_emitAll
    (trees : List Expr)
    {code : Code}
    (compiled : emitAll signatures params trees = .ok code) :
    Code.Raises trees.length code := by
  cases trees with
  | nil =>
      cases compiled
      exact .nil
  | cons tree rest =>
      obtain ⟨firstCode, firstCompiles, more⟩ := except_bind_eq_ok.mp compiled
      obtain ⟨restCode, restCompiles, last⟩ := except_bind_eq_ok.mp more
      cases last
      rw [List.length_cons, Nat.add_comm]
      exact (raises_of_emit tree firstCompiles).append
        (raises_of_emitAll rest restCompiles)

end

/-- An expression compiles to what it emits. -/
theorem expr_eq_ok_iff
    {tree : Expr}
    {code : Code} :
    expr signatures params tree = .ok code ↔
      emit signatures params tree = .ok code := by
  refine ⟨fun compiled => (emit_of_expr compiled).1, fun emitted => ?_⟩
  have accepted := (raises_of_emit tree emitted).check
  simp only [expr, emitted, except_bind_ok, accepted]
  rfl

end Compile

end Formulary
