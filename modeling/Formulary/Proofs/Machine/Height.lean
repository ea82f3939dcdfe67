import Formulary.Proofs.Cell.Fold
import Formulary.Proofs.Eval.Context
import Formulary.Proofs.Eval.Height
import Formulary.Proofs.Machine.Resolution

namespace Formulary

/-!
# Heights on loaded machines

On a loaded machine the height of a program, any program and not only those that
are compiled, agrees with what becomes of its cells, whatever they find in the
scopes.  Folding a program into a formula agrees with its height as well.
-/

namespace Eval

/--
A height that was worked out beforehand agrees with how an execution ends.
-/
structure ExactHeight
    (height : Except HeightFault Nat)
    (outcome : EStateM.Result Failure Run Unit) : Prop where
  /-- As many cells are left as there should be. -/
  succeeds : ∀ run, outcome = .ok () run → height = .ok run.stack.depth
  /-- Operands are missing only where that was found out. -/
  runsShort :
    ∀ failure run,
      outcome = .error failure run → failure.fault.label = .stackUnderflow →
      ∃ fault, height = .error fault
  /-- What lacks operands does not run to its end. -/
  refused :
    ∀ fault, height = .error fault → ∃ failure run, outcome = .error failure run

theorem Foretold.exact
    {height : Except HeightFault Nat}
    {outcome : EStateM.Result Failure Run Unit}
    (foretold : Foretold height outcome) :
    ExactHeight height outcome := by
  cases foretold with
  | leaves run =>
      refine ⟨fun _ same => ?_, fun _ _ same => ?_, nofun⟩
      · cases same
        rfl
      · cases same
  | fails notShort =>
      refine ⟨nofun, fun failure run same short => ?_, fun _ _ => ⟨_, _, rfl⟩⟩
      cases same
      exact absurd short notShort
  | refused => exact ⟨nofun, fun _ _ _ _ => ⟨_, rfl⟩, fun _ _ => ⟨_, _, rfl⟩⟩

end Eval

namespace Machine

namespace Loaded

variable
  {machine : Machine}
  (loaded : machine.Loaded)
include loaded

/-- In active calls every entry is still checked. -/
theorem checked_calls (calls : List Call) :
    (⟨machine.scopes.globals, calls.map Call.frame⟩ : Scopes).Checked := by
  induction calls with
  | nil => exact ⟨loaded.checked.globals, nofun⟩
  | cons call others inductionHypothesis =>
      exact inductionHypothesis.push call.params call.values

/--
In active calls every entry still refers to global names and its own parameters.
-/
theorem linked_calls (calls : List Call) :
    (⟨machine.scopes.globals, calls.map Call.frame⟩ : Scopes).Linked := by
  induction calls with
  | nil => exact ⟨loaded.wellFormed.linked.globals, nofun⟩
  | cons call others inductionHypothesis =>
      exact inductionHypothesis.push call.params call.values

end Loaded

/--
The height of a program is exact.  On any number of values, inside any active
calls of a loaded machine and with any levels of nesting left, cells leave what
their height says, and run out of operands or are refused only where it says so.
A program passes its check when it folds into the formula of a tree; otherwise
its cells are listed.  Folding reads no piece that has not been made.
-/
theorem height_agrees_with_execution_and_formula
    {machine : Machine}
    (loaded : machine.Loaded) :
    (∀ (config : Config) (levels : Nat) (calls : List Call)
      (frame : Option Nat) (code : Code)
        (values : List Value) (steps callDepth : Nat),
      let scopes : Scopes := ⟨machine.scopes.globals, calls.map Call.frame⟩
      let start : Run := ⟨⟨Eval.literals values⟩, steps, callDepth⟩
      Eval.ExactHeight (Code.height values.length code)
          (Eval.execCells config (Eval.runProgram config levels) scopes
            frame code start) ∧
        Eval.ExactHeight (Code.height values.length code)
          (Eval.runProgram config levels scopes frame code start)) ∧
    ∀ code : Code,
      (Code.check code = .ok () ↔ ∃ phrase, Code.FoldsTo code phrase) ∧
      (∀ phrase, Code.FoldsTo code phrase → Code.formula code = phrase.text) ∧
      (Code.check code ≠ .ok () → Code.formula code = Code.postfixText code) ∧
      Code.formulaByPosition code = some (Code.formula code) := by
  constructor
  · intro config levels calls frame code values steps callDepth scopes start
    have checked := loaded.checked_calls calls
    have linked := loaded.linked_calls calls
    have onlyValues : start = Eval.above values [] steps callDepth := by
      simp [start, Eval.above]
    rw [onlyValues]
    constructor
    · exact (Eval.foretold_execCells (Eval.runProgram_confines config levels)
        (Eval.runProgram_orders config levels) checked linked frame code
        0 values steps callDepth).exact
    · exact (Eval.foretold_runProgram config levels checked linked frame
        code values steps callDepth).exact
  · intro code
    exact ⟨Code.check_eq_ok_iff_foldsTo code,
      fun phrase folds => folds.formula_eq, Code.formula_of_not_check,
      Code.formulaByPosition_eq code⟩

/--
A call with a value below it for the sum; without that value it does not run to
its end.
-/
theorem height_agrees_with_execution_and_formula_call :
    ∃ (machine : Machine) (code : Code),
      machine.Loaded ∧ machine.names = ["f", "y"] ∧
      code = [.literal (.int 3), .call "f" 1, .op (.binary .add)] ∧
      (∃ run, Eval.runProgram {} 3 ⟨machine.scopes.globals, []⟩ none code
          ⟨⟨[.literal (.int 5)]⟩, 0, 0⟩ = .ok () run ∧
        Code.height 1 code = .ok run.stack.depth) ∧
      ∃ failure run, Eval.runProgram {} 3 ⟨machine.scopes.globals, []⟩ none code
        ⟨⟨[]⟩, 0, 0⟩ = .error failure run := by
  obtain ⟨machine, loaded, entries⟩ := exists_loaded
  have exactHeights := (height_agrees_with_execution_and_formula loaded).1
  have globals : machine.scopes.globals = ⟨machine.entries⟩ := rfl
  refine ⟨machine, _, loaded, congrArg (List.map Entry.name) entries, rfl, ?_,
    ?_⟩
  · have exactHere := (exactHeights {} 3 [] none
      [.literal (.int 3), .call "f" 1, .op (.binary .add)] [.int 5] 0 0).2
    have runs :
        Eval.runProgram {} 3 ⟨machine.scopes.globals, []⟩ none
            [.literal (.int 3), .call "f" 1, .op (.binary .add)]
            ⟨⟨[.literal (.int 5)]⟩, 0, 0⟩ =
          .ok () ⟨⟨[.literal (.int 15)]⟩, 8, 0⟩ := by
      rw [globals, entries]
      decide +kernel
    exact ⟨_, runs, exactHere.succeeds _ runs⟩
  · have exactHere := (exactHeights {} 3 [] none
      [.literal (.int 3), .call "f" 1, .op (.binary .add)] [] 0 0).2
    exact exactHere.refused (.underflow 2 (.op (.binary .add)) 1) rfl

end Machine

end Formulary
