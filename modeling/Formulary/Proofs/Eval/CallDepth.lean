import Formulary.Proofs.Eval.Confined

namespace Formulary

open Stateful

/-!
# Nesting ends where it began

Every program that is entered is left again, however its execution ends, so no
evaluation changes the number of programs being executed.
-/

namespace Eval

/-- The same number of programs is being executed. -/
def SameDepth (run next : Run) : Prop :=
  next.callDepth = run.callDepth

theorem SameDepth.trans
    {first second third : Run}
    (before : SameDepth first second)
    (after : SameDepth second third) :
    SameDepth first third :=
  Eq.trans after before

/-- An evaluation that leaves every program it enters. -/
abbrev Balanced (action : Eval α) : Prop :=
  Keeps SameDepth action

theorem balanced_bind
    {action : Eval α}
    {rest : α → Eval β}
    (first : Balanced action)
    (second : ∀ a, Balanced (rest a)) :
    Balanced (action >>= rest) := by
  refine Keeps.bind ?_ first second
  intro _ _ _ before after
  exact SameDepth.trans before after

theorem balanced_pure (a : α) : Balanced (pure a) :=
  fun _ => rfl

theorem balanced_fail (fault : Fault) : Balanced (fail fault : Eval α) :=
  fun _ => rfl

theorem balanced_ofExcept
    (result : Except Fault α) :
    Balanced (ofExcept result) := by
  cases result with
  | ok a => exact balanced_pure a
  | error fault => exact balanced_fail fault

theorem balanced_push (cell : Cell) : Balanced (push cell) :=
  fun _ => rfl

theorem balanced_pop : Balanced pop := by
  intro run
  cases popped : run.stack.pop with
  | ok result =>
      simp only [pop, bind_get, popped]
      rfl
  | error fault =>
      simp only [pop, bind_get, popped]
      rfl

theorem balanced_popMany (count : Nat) : Balanced (popMany count) := by
  intro run
  cases popped : run.stack.popMany count with
  | ok result =>
      simp only [popMany, bind_get, popped]
      rfl
  | error fault =>
      simp only [popMany, bind_get, popped]
      rfl

theorem balanced_inside
    {action : Eval α}
    (balanced : Balanced action)
    (entry : String) :
    Balanced (inside entry action) := by
  intro run
  have kept := balanced run
  unfold inside
  cases outcome : action run with
  | ok a next =>
      rw [outcome] at kept
      exact kept
  | error failure next =>
      rw [outcome] at kept
      exact kept

theorem balanced_nested
    {action : Eval α}
    (balanced : Balanced action) :
    Balanced (nested action) := by
  intro run
  have kept := balanced { run with callDepth := run.callDepth + 1 }
  unfold nested
  cases outcome : action { run with callDepth := run.callDepth + 1 } with
  | ok a next =>
      rw [outcome] at kept
      simp only [SameDepth, final] at kept ⊢
      omega
  | error failure next =>
      rw [outcome] at kept
      simp only [SameDepth, final] at kept ⊢
      omega

theorem balanced_tick (config : Config) : Balanced (tick config) := by
  intro run
  rw [tick_apply]
  split <;> rfl

theorem balanced_operate (op : Op) : Balanced (operate op) := by
  unfold operate
  split
  · exact balanced_bind balanced_pop fun _ =>
      balanced_bind (balanced_ofExcept _) fun _ => balanced_push _
  · exact balanced_bind balanced_pop fun _ =>
      balanced_bind balanced_pop fun _ =>
        balanced_bind (balanced_ofExcept _) fun _ => balanced_push _

/-- A way of running programs that leaves every program it enters. -/
def Runner.Balances (runner : Runner) : Prop :=
  ∀ (scopes : Scopes) (frame : Option Nat) (code : Code),
    Balanced (runner scopes frame code)

section Entries

variable
  {config : Config}
  {runner : Runner}
  (balances : runner.Balances)
  (scopes : Scopes)
include balances

theorem balanced_apply
    (entry : Entry) :
    Balanced (apply config runner scopes entry) := by
  refine balanced_inside ?_ entry.name
  obtain ⟨name, definition⟩ := entry
  cases definition with
  | scalar code => exact balances scopes none code
  | array grid =>
      exact balanced_bind (balanced_popMany _) fun _ =>
        balanced_bind (balanced_ofExcept _) fun _ =>
          balanced_bind (balanced_ofExcept _) fun _ => balances _ _ _
  | function params body =>
      exact balanced_bind (balanced_popMany _) fun _ => balances _ _ _
  | curve curve =>
      exact balanced_bind balanced_pop fun _ =>
        balanced_bind (balanced_ofExcept _) fun _ =>
          balanced_bind (balanced_ofExcept _) fun _ => balanced_push _

theorem balanced_reference
    (frame : Option Nat)
    (cell : Cell)
    (name : String) :
    Balanced
      (resolve config scopes frame name >>= fun entry =>
        match useFault? cell entry with
        | some fault => fail fault
        | none => apply config runner scopes entry) := by
  refine balanced_bind ?_ fun entry => ?_
  · unfold resolve
    simp only
    split
    · exact balanced_pure _
    · exact balanced_fail _
  · split
    · exact balanced_fail _
    · exact balanced_apply balances scopes entry

theorem balanced_execCell
    (frame : Option Nat)
    (cell : Cell) :
    Balanced (execCell config runner scopes frame cell) := by
  cases cell with
  | literal value => exact balanced_push _
  | op operation => exact balanced_operate operation
  | «variable» name => exact balanced_reference balances scopes frame _ name
  | lookup name => exact balanced_reference balances scopes frame _ name
  | call name arity => exact balanced_reference balances scopes frame _ name
  | element name rank => exact balanced_reference balances scopes frame _ name

theorem balanced_execCells
    (frame : Option Nat)
    (code : Code) :
    Balanced (execCells config runner scopes frame code) := by
  induction code with
  | nil => exact balanced_pure ()
  | cons cell rest inductionHypothesis =>
      exact balanced_bind (balanced_tick config) fun _ =>
        balanced_bind (balanced_execCell balances scopes frame cell) fun _ =>
          inductionHypothesis

end Entries

/-- Programs are left again at every level of nesting. -/
theorem runProgram_balances
    (config : Config)
    (levels : Nat) :
    (runProgram config levels).Balances := by
  induction levels with
  | zero =>
      intro scopes frame code
      exact balanced_fail _
  | succ levels inductionHypothesis =>
      intro scopes frame code
      exact balanced_nested
        (balanced_execCells inductionHypothesis scopes frame code)

end Eval

end Formulary
