import Formulary.Proofs.Eval.Resolved

namespace Formulary

open Stateful

/-!
# Heights foretold and met

The height of a program is worked out without running it.  Among checked and
linked entries it is exact: cells that run to their end leave as many values as
their height says, cells run out of operands only where it says so, and where it
says so they never run to their end.  No cell has its own effect overruled at
run time, because a reference is refused when its entry takes another number of
operands.
-/

namespace Eval

/--
What an execution may come to when a height, or a fault, is foretold for its
end.
-/
inductive Foretold :
    Except HeightFault Nat → EStateM.Result Failure Run Unit → Prop where
  | leaves (run : Run) :
      Foretold (.ok run.stack.depth) (.ok () run)
  | fails
      {height : Except HeightFault Nat}
      {failure : Failure}
      {run : Run}
      (notShort : failure.fault.label ≠ .stackUnderflow) :
      Foretold height (.error failure run)
  | refused
      {fault : HeightFault}
      {failure : Failure}
      {run : Run} :
      Foretold (.error fault) (.error failure run)

/--
After an evaluation that does not run out of operands, what is foretold for the
rest.
-/
theorem Foretold.andThen
    {height : Except HeightFault Nat}
    {takes between : Nat}
    {action rest : Eval Unit}
    (confined : Confined takes between action)
    {values : List Value}
    (taken : values.length = takes)
    {steps calls : Nat}
    (notShort :
      ∀ failure next,
        action (above values [] steps calls) = .error failure next →
        failure.fault.label ≠ .stackUnderflow)
    (foretold :
      ∀ (results : List Value) (later : Nat), results.length = between →
        Foretold height (rest (above results [] later calls))) :
    Foretold height
      ((action >>= fun _ => rest) (above values [] steps calls)) := by
  rcases confined 0 steps calls values taken with
      ⟨results, counted, later, succeeds⟩ | ⟨failure, rubble, later, fails⟩
  · rw [bind_of_ok (succeeds [] rfl)]
    exact foretold results later counted
  · have failsHere := fails [] rfl
    rw [bind_of_error failsHere]
    exact .fails (notShort failure _ failsHere)

/-- An operation does not succeed on too few cells. -/
theorem operate_of_short
    {op : Op}
    {run : Run}
    (short : run.stack.depth < op.arity) :
    ∃ failure next, operate op run = .error failure next := by
  obtain ⟨⟨cells⟩, steps, calls⟩ := run
  simp only [Stack.depth] at short
  have few : op.arity ≤ 2 := by cases op <;> simp [Op.arity]
  cases cells with
  | nil =>
      unfold operate
      split <;> exact ⟨_, _, rfl⟩
  | cons cell others =>
      rw [List.length_cons] at short
      obtain rfl : others = [] := List.length_eq_zero_iff.mp (by omega)
      rw [List.length_nil] at short
      rw [operate, if_neg (by omega)]
      exact ⟨_, _, rfl⟩

section Cells

variable
  {config : Config}
  {runner : Runner}
  {scopes : Scopes}

/-- An entry does not succeed on too few cells. -/
theorem apply_of_short
    {entry : Entry}
    {run : Run}
    (short : run.stack.depth < entry.operandCount) :
    ∃ failure next,
      apply config runner scopes entry run = .error failure next := by
  obtain ⟨name, definition⟩ := entry
  have fails :
      ∃ failure next,
        applyDefinition config runner scopes name definition run =
          .error failure next := by
    cases definition with
    | scalar code => exact absurd short (Nat.not_lt_zero _)
    | array grid =>
        unfold applyDefinition
        exact ⟨_, _, bind_of_error (popMany_of_short short)⟩
    | function params body =>
        unfold applyDefinition
        exact ⟨_, _, bind_of_error (popMany_of_short short)⟩
    | curve curve =>
        obtain ⟨⟨cells⟩, steps, calls⟩ := run
        obtain rfl : cells = [] :=
          List.length_eq_zero_iff.mp (Nat.lt_one_iff.mp short)
        exact ⟨_, _, rfl⟩
  obtain ⟨failure, next, fails⟩ := fails
  exact ⟨failure.inside name, next, by simp only [apply, inside, fails]⟩

/-- A cell does not succeed on fewer cells than it takes. -/
theorem execCell_of_short
    (frame : Option Nat)
    {cell : Cell}
    {run : Run}
    (short : run.stack.depth < cell.pops) :
    ∃ failure next,
      execCell config runner scopes frame cell run = .error failure next := by
  cases reference : cell.reference? with
  | none =>
      cases cell with
      | literal value => exact absurd short (Nat.not_lt_zero _)
      | op operation => exact operate_of_short short
      | «variable» | lookup | call | element => cases reference
  | some name =>
      rw [execCell_reference frame reference, resolve_eq]
      cases found : lookup? config scopes frame name with
      | none => exact ⟨_, _, rfl⟩
      | some entry =>
          rw [bind_pure]
          cases use : useFault? cell entry with
          | some fault => exact ⟨_, _, rfl⟩
          | none =>
              rw [← operandCount_of_useFault?
                (by simp [reference]) use] at short
              exact apply_of_short short

variable
  (confines : runner.Confines)
  (orders : runner.Orders config)
  (checked : scopes.Checked)
  (linked : scopes.Linked)

include orders checked linked in
/-- A cell that has its operands fails for another reason, if it does. -/
theorem notShort_of_execCell
    {frame : Option Nat}
    {cell : Cell}
    {values : List Value}
    (enough : ¬ values.length < cell.pops)
    {steps calls : Nat}
    {failure : Failure}
    {next : Run}
    (fails :
      execCell config runner scopes frame cell (above values [] steps calls) =
        .error failure next) :
    failure.fault.label ≠ .stackUnderflow := by
  by_cases resolves :
      ∀ name, cell.reference? = some name →
        (lookup? config scopes frame name).isSome
  · have orderly :=
      (orderly_execCell orders checked linked frame resolves).extend
      (values.length - cell.pops)
    exact (orderly values [] steps calls (by omega) failure next fails).2
  · -- The name that the cell refers to is not bound.
    push Not at resolves
    obtain ⟨name, reference, unbound⟩ := resolves
    have missing : lookup? config scopes frame name = none := by
      simpa using unbound
    rw [execCell_reference frame reference, resolve_eq, missing] at fails
    cases fails
    exact nofun

include confines orders checked linked in
/-- Cells do what their height foretells. -/
theorem foretold_execCells
    (frame : Option Nat)
    (code : Code)
    (index : Nat)
    (values : List Value)
    (steps calls : Nat) :
    Foretold (Code.heightFrom index values.length code)
      (execCells config runner scopes frame code
        (above values [] steps calls)) := by
  induction code generalizing index values steps with
  | nil =>
      have depth :
          (above values [] steps calls).stack.depth = values.length := by
        simp [above, Stack.depth]
      rw [Code.heightFrom, ← depth]
      exact .leaves _
  | cons cell rest inductionHypothesis =>
      refine .andThen (confined_tick config values.length) rfl ?_
        fun ticked later counted => ?_
      · intro failure next fails
        exact (Orderly.tick config values.length values [] steps calls rfl
          failure next fails).2
      · rw [← counted, Code.heightFrom]
        split
        · rename_i short
          have depth :
              (above ticked [] later calls).stack.depth < cell.pops := by
            simpa [above, Stack.depth] using short
          obtain ⟨failure, next, fails⟩ := execCell_of_short frame depth
          rw [bind_of_error fails]
          exact .refused
        · rename_i enough
          refine .andThen (confined_step confines checked frame enough) rfl
            (fun failure next =>
              notShort_of_execCell orders checked linked enough)
            fun results last left => ?_
          rw [← left]
          exact inductionHypothesis (index + 1) results last

end Cells

/-- Counting a program changes neither its success nor its failure. -/
theorem Foretold.nested
    {height : Except HeightFault Nat}
    {action : Eval Unit}
    {run : Run}
    (foretold :
      Foretold height (action { run with callDepth := run.callDepth + 1 })) :
    Foretold height (Eval.nested action run) := by
  unfold Eval.nested
  cases outcome : action { run with callDepth := run.callDepth + 1 } with
  | ok _ next =>
      rw [outcome] at foretold
      cases foretold
      exact .leaves { next with callDepth := next.callDepth - 1 }
  | error failure next =>
      rw [outcome] at foretold
      cases foretold with
      | fails notShort => exact .fails notShort
      | refused => exact .refused

/-- Programs do what their height foretells, at every level of nesting. -/
theorem foretold_runProgram
    (config : Config)
    (levels : Nat)
    {scopes : Scopes}
    (checked : scopes.Checked)
    (linked : scopes.Linked)
    (frame : Option Nat)
    (code : Code)
    (values : List Value)
    (steps calls : Nat) :
    Foretold (Code.height values.length code)
      (runProgram config levels scopes frame code
        (above values [] steps calls)) := by
  cases levels with
  | zero => exact .fails nofun
  | succ levels =>
      exact .nested (foretold_execCells (runProgram_confines config levels)
        (runProgram_orders config levels) checked linked frame code 0 values
        steps (calls + 1))

end Eval

end Formulary
