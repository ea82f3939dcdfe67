import Formulary.Proofs.Eval.Limits
import Formulary.Proofs.Eval.Reached

namespace Formulary

open Stateful

/-!
# Evaluation at an earlier step

The count of steps and the levels that are left are looked at by the limits
only.  An evaluation that starts on the same stack with fewer steps counted and
more levels left therefore ends as the other one does, unless a limit ends that
one.  So an entry evaluated on its own ends as it does behind literals, in an
expression that refers to it.
-/

/-- The same stack, with no more steps counted. -/
structure Run.Ahead (run later : Run) : Prop where
  stack : later.stack = run.stack
  steps : run.steps ≤ later.steps

/-- A cell that no limit stops is not stopped at an earlier step. -/
theorem Config.exceeded?_of_le
    {config : Config}
    {steps later depth : Nat}
    (earlier : steps ≤ later)
    (allowed : config.exceeded? later depth = none) :
    config.exceeded? steps depth = none := by
  unfold Config.exceeded? at allowed ⊢
  rw [Option.orElse_eq_orElse, Option.orElse_eq_or,
    Option.or_eq_none_iff] at allowed ⊢
  refine ⟨?_, allowed.2⟩
  cases limited : config.maxSteps with
  | none => rfl
  | some most =>
      have counted : ¬ most < later := by simpa [limited] using allowed.1
      have countedToo : ¬ most < steps := by omega
      simp [countedToo]

namespace Eval

/-- A limit that ends the first part ends the whole. -/
theorem CutShort.bind
    {first : Eval α}
    {run : Run}
    (limited : CutShort (first run))
    (rest : α → Eval β) :
    CutShort ((first >>= rest) run) := by
  obtain ⟨failure, last, fails, isLimit⟩ := limited
  exact ⟨failure, last, bind_of_error fails, isLimit⟩

/-- A late evaluation ends at a limit, or as an early one does. -/
inductive EndsAs (early late : EStateM.Result Failure Run α) : Prop where
  | cutShort (limited : CutShort late)
  | value
      (a : α)
      (run later : Run)
      (succeeds : early = .ok a run)
      (succeedsToo : late = .ok a later)
      (ahead : run.Ahead later)
  | failure
      (failure : Failure)
      (run later : Run)
      (fails : early = .error failure run)
      (failsToo : late = .error failure later)

/-- An evaluation that, started early, ends as another one does. -/
def Precedes (early late : Eval α) : Prop :=
  ∀ run later, run.Ahead later → EndsAs (early run) (late later)

namespace Precedes

theorem pure (a : α) : Precedes (pure a) (pure a) :=
  fun run later ahead => .value a run later rfl rfl ahead

theorem fail (fault : Fault) : Precedes (fail fault : Eval α) (fail fault) :=
  fun run later _ => .failure (Failure.ofFault fault) run later rfl rfl

theorem ofExcept
    (result : Except Fault α) :
    Precedes (ofExcept result) (ofExcept result) := by
  cases result with
  | ok a => exact .pure a
  | error fault => exact .fail fault

theorem push (cell : Cell) : Precedes (push cell) (push cell) := by
  intro run later ahead
  refine .value () _ _ rfl rfl ⟨?_, ahead.steps⟩
  exact congrArg (Stack.push · cell) ahead.stack

/-- Something that is taken from the stack. -/
theorem taking
    {action : Eval α}
    (take : Stack → Except Fault (α × Stack))
    (takes :
      ∀ run, action run =
        match take run.stack with
        | .ok (a, stack) => .ok a { run with stack := stack }
        | .error fault => .error (Failure.ofFault fault) run) :
    Precedes action action := by
  intro run later ahead
  rw [takes, takes, ahead.stack]
  cases take run.stack with
  | ok taken => exact .value taken.1 _ _ rfl rfl ⟨rfl, ahead.steps⟩
  | error fault => exact .failure _ _ _ rfl rfl

theorem pop : Precedes pop pop := by
  refine taking Stack.pop fun run => ?_
  cases popped : run.stack.pop with
  | ok result =>
      simp only [Eval.pop, bind_get, popped, ofExcept_ok, bind_pure]; rfl
  | error fault => simp only [Eval.pop, bind_get, popped]; rfl

theorem popMany (count : Nat) : Precedes (popMany count) (popMany count) := by
  refine taking (Stack.popMany · count) fun run => ?_
  cases popped : run.stack.popMany count with
  | ok result =>
      simp only [Eval.popMany, bind_get, popped, ofExcept_ok, bind_pure]; rfl
  | error fault => simp only [Eval.popMany, bind_get, popped]; rfl

/-- One evaluation after another. -/
theorem bind
    {early late : Eval α}
    {earlyRest lateRest : α → Eval β}
    (first : Precedes early late)
    (second : ∀ a, Precedes (earlyRest a) (lateRest a)) :
    Precedes (early >>= earlyRest) (late >>= lateRest) := by
  intro run later ahead
  cases first run later ahead with
  | cutShort limited => exact .cutShort (limited.bind lateRest)
  | value a next nextLater succeeds succeedsToo nextAhead =>
      rw [bind_of_ok succeeds, bind_of_ok succeedsToo]
      exact second a next nextLater nextAhead
  | failure failure next nextLater fails failsToo =>
      exact .failure failure next nextLater (bind_of_error fails)
        (bind_of_error failsToo)

theorem inside
    {early late : Eval α}
    (precedes : Precedes early late)
    (entry : String) :
    Precedes (Eval.inside entry early) (Eval.inside entry late) := by
  intro run later ahead
  cases precedes run later ahead with
  | cutShort limited =>
      obtain ⟨failure, last, fails, isLimit⟩ := limited
      exact .cutShort
        ⟨failure.inside entry, last, by simp only [Eval.inside, fails], isLimit⟩
  | value a next nextLater succeeds succeedsToo nextAhead =>
      refine .value a next nextLater ?_ ?_ nextAhead
      · simp only [Eval.inside, succeeds]
      · simp only [Eval.inside, succeedsToo]
  | failure failure next nextLater fails failsToo =>
      refine .failure (failure.inside entry) next nextLater ?_ ?_
      · simp only [Eval.inside, fails]
      · simp only [Eval.inside, failsToo]

theorem operate (op : Op) : Precedes (operate op) (operate op) := by
  unfold Eval.operate
  split
  · exact .bind .pop fun a => .bind (.ofExcept _) fun value => .push _
  · exact .bind .pop fun b => .bind .pop fun a =>
      .bind (.ofExcept _) fun value => .push _

theorem tick (config : Config) : Precedes (tick config) (tick config) := by
  intro run later ahead
  have counted := Nat.succ_le_succ ahead.steps
  rw [tick_apply, tick_apply]
  cases exceeded : config.exceeded? (later.steps + 1) later.stack.depth with
  | some limit => exact .cutShort ⟨_, _, rfl, rfl⟩
  | none =>
      have allowed := Config.exceeded?_of_le counted exceeded
      rw [ahead.stack] at allowed
      rw [allowed]
      exact .value () _ _ rfl rfl ⟨ahead.stack, counted⟩

end Precedes

/-- A program is left as its cells end, whether early or late. -/
theorem EndsAs.nestedLate
    {early : EStateM.Result Failure Run α}
    {late : Eval α}
    {later : Run}
    (endsAs :
      EndsAs early (late { later with callDepth := later.callDepth + 1 })) :
    EndsAs early (nested late later) := by
  cases endsAs with
  | cutShort limited =>
      obtain ⟨failure, last, fails, isLimit⟩ := limited
      refine .cutShort
        ⟨failure, { last with callDepth := last.callDepth - 1 }, ?_, isLimit⟩
      simp only [nested, fails]
  | value a next nextLater succeeds succeedsToo ahead =>
      refine .value a next
        { nextLater with callDepth := nextLater.callDepth - 1 } succeeds ?_
        ⟨ahead.stack, ahead.steps⟩
      simp only [nested, succeedsToo]
  | failure failure next nextLater fails failsToo =>
      refine .failure failure next
        { nextLater with callDepth := nextLater.callDepth - 1 } fails ?_
      simp only [nested, failsToo]

theorem EndsAs.nestedEarly
    {early : Eval α}
    {late : EStateM.Result Failure Run α}
    {run : Run}
    (endsAs : EndsAs (early { run with callDepth := run.callDepth + 1 }) late) :
    EndsAs (nested early run) late := by
  cases endsAs with
  | cutShort limited => exact .cutShort limited
  | value a next nextLater succeeds succeedsToo ahead =>
      refine .value a { next with callDepth := next.callDepth - 1 } nextLater
        ?_ succeedsToo ⟨ahead.stack, ahead.steps⟩
      simp only [nested, succeeds]
  | failure failure next nextLater fails failsToo =>
      refine .failure failure { next with callDepth := next.callDepth - 1 }
        nextLater ?_ failsToo
      simp only [nested, fails]

/-- A way of running programs that precedes another one. -/
def Runner.Precedes (early late : Runner) : Prop :=
  ∀ (scopes : Scopes) (frame : Option Nat) (code : Code),
    Eval.Precedes (early scopes frame code) (late scopes frame code)

section Programs

variable
  {config : Config}
  {early late : Runner}
  (runners : early.Precedes late)
  (scopes : Scopes)

include runners

theorem precedes_apply (entry : Entry) :
    Precedes (apply config early scopes entry)
      (apply config late scopes entry) := by
  refine Precedes.inside ?_ entry.name
  obtain ⟨name, definition⟩ := entry
  cases definition with
  | scalar code => exact runners scopes none code
  | array grid =>
      exact .bind (.popMany _) fun cells => .bind (.ofExcept _) fun indices =>
        .bind (.ofExcept _) fun code => runners scopes none code
  | function params body =>
      exact .bind (.popMany _) fun arguments => runners _ _ body
  | curve curve =>
      exact .bind .pop fun cell => .bind (.ofExcept _) fun x =>
        .bind (.ofExcept _) fun y => .push _

theorem precedes_execCell
    (frame : Option Nat)
    (cell : Cell) :
    Precedes (execCell config early scopes frame cell)
      (execCell config late scopes frame cell) := by
  cases referring : cell.reference? with
  | none =>
      cases cell with
      | literal value => exact .push _
      | op operation => exact .operate operation
      | «variable» | lookup | call | element => cases referring
  | some name =>
      rw [execCell_reference frame referring,
        execCell_reference frame referring, resolve_eq]
      refine .bind ?_ fun entry => ?_
      · cases lookup? config scopes frame name with
        | none => exact .fail _
        | some entry => exact .pure entry
      · cases useFault? cell entry with
        | some fault => exact .fail fault
        | none => exact precedes_apply runners scopes entry

theorem precedes_execCells
    (frame : Option Nat)
    (code : Code) :
    Precedes (execCells config early scopes frame code)
      (execCells config late scopes frame code) := by
  induction code with
  | nil => exact .pure ()
  | cons cell rest inductionHypothesis =>
      exact .bind (.tick config) fun _ =>
        .bind (precedes_execCell runners scopes frame cell) fun _ =>
          inductionHypothesis

end Programs

/-- Programs precede those that have fewer levels left. -/
theorem runProgram_precedes
    (config : Config)
    {levels more : Nat}
    (fewer : levels ≤ more) :
    (runProgram config more).Precedes (runProgram config levels) := by
  induction levels generalizing more with
  | zero =>
      intro scopes frame code run later _
      exact .cutShort ⟨_, later, rfl, rfl⟩
  | succ levels inductionHypothesis =>
      intro scopes frame code run later ahead
      cases more with
      | zero => exact absurd fewer (Nat.not_succ_le_zero levels)
      | succ others =>
          have inner := inductionHypothesis (Nat.le_of_succ_le_succ fewer)
          exact .nestedEarly (.nestedLate
            (precedes_execCells inner scopes frame code _ _
              ⟨ahead.stack, ahead.steps⟩))

/-- Counting a cell ends the evaluation at a limit, or does nothing else. -/
theorem tick_cases
    (config : Config)
    (run : Run) :
    CutShort (tick config run) ∨
      tick config run = .ok () { run with steps := run.steps + 1 } := by
  rw [tick_apply]
  cases config.exceeded? (run.steps + 1) run.stack.depth with
  | some limit => exact .inl ⟨_, _, rfl, rfl⟩
  | none => exact .inr rfl

/--
Literals are pushed one after the other, unless a limit ends the evaluation.
-/
theorem execCells_literals
    (config : Config)
    (runner : Runner)
    (scopes : Scopes)
    (frame : Option Nat)
    (values : List Value)
    (rest : Code)
    (run : Run) :
    CutShort
      (execCells config runner scopes frame (literals values ++ rest) run) ∨
      execCells config runner scopes frame (literals values ++ rest) run =
        execCells config runner scopes frame rest
          { run with
            stack := run.stack.pushAll (literals values)
            steps := run.steps + values.length } := by
  induction values generalizing run with
  | nil => exact .inr rfl
  | cons value others inductionHypothesis =>
      rw [literals_cons, List.cons_append, execCells]
      rcases tick_cases config run with limited | counted
      · exact .inl (limited.bind _)
      · have pushed :
            execCell config runner scopes frame (.literal value)
                { run with steps := run.steps + 1 } =
              .ok () ⟨run.stack.push (.literal value), run.steps + 1,
                run.callDepth⟩ :=
          rfl
        have restPushed :
            (run.stack.push (.literal value)).pushAll (literals others) =
              run.stack.pushAll (.literal value :: literals others) := by
          simp [Stack.pushAll, Stack.push]
        have steps : run.steps + 1 + others.length =
            run.steps + (value :: others).length := by
          rw [List.length_cons]
          omega
        have later := inductionHypothesis
          ⟨run.stack.push (.literal value), run.steps + 1, run.callDepth⟩
        rw [restPushed, steps] at later
        rw [bind_of_ok counted, bind_of_ok pushed]
        exact later

/--
An entry on its operands ends as a program does that pushes them and refers to
it.
-/
theorem apply_endsAs_program
    {config : Config}
    {scopes : Scopes}
    {cell : Cell}
    {name : String}
    {entry : Entry}
    (reference : cell.reference? = some name)
    (found : lookup? config scopes none name = some entry)
    (usable : useFault? cell entry = none)
    (values : List Value)
    (stack : Stack) :
    EndsAs
      (apply config (runTop config) scopes entry
        ⟨stack.pushAll (literals values), 0, 0⟩)
      (runTop config scopes none (literals values ++ [cell])
        ⟨stack, 0, 0⟩) := by
  cases levels : config.maxCallDepth with
  | zero =>
      simp only [runTop, levels]
      exact .cutShort ⟨_, _, rfl, rfl⟩
  | succ fewer =>
      simp only [runTop, levels]
      refine .nestedLate ?_
      rcases execCells_literals config (runProgram config fewer) scopes
        none values [cell]
          ⟨stack, 0, 1⟩ with limited | same
      · exact .cutShort limited
      · have alone :
            execCells config (runProgram config fewer) scopes none [cell] =
              tick config >>= fun _ =>
                apply config (runProgram config fewer) scopes entry := by
          simp only [execCells, bind_pure_unit,
            execCell_of_reference reference found usable]
        simp only [Nat.zero_add] at same ⊢
        rw [same, alone]
        rcases tick_cases config
          ⟨stack.pushAll (literals values), values.length, 1⟩ with
            limited | counted
        · exact .cutShort (limited.bind _)
        · have more := runProgram_precedes config (Nat.le_succ fewer)
          rw [bind_of_ok counted]
          exact precedes_apply more scopes entry _ _ ⟨rfl, Nat.zero_le _⟩

end Eval

end Formulary
