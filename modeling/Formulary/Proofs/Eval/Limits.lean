import Formulary.Proofs.Eval.Confined

namespace Formulary

open Stateful

/-!
# Evaluation under wider limits

The limits are looked at before each cell and where a program is entered, and
nowhere else.  An evaluation that no limit ends therefore goes the same way,
cell by cell, under all settings with wider limits.
-/

/-- Settings that differ in their limits only, and whose limits are no wider. -/
structure Config.Within (config wider : Config) : Prop where
  callDepth : config.maxCallDepth ≤ wider.maxCallDepth
  stackSize : config.maxStackSize ≤ wider.maxStackSize
  /-- Steps that are not limited are limited by nothing. -/
  steps : ∀ most ∈ wider.maxSteps, ∃ fewer ∈ config.maxSteps, fewer ≤ most
  extrapolation : wider.extrapolation = config.extrapolation
  nameResolution : wider.nameResolution = config.nameResolution

/-- A cell that no limit stops is not stopped by wider limits. -/
theorem Config.Within.exceeded?
    {config wider : Config}
    (within : config.Within wider)
    {steps depth : Nat}
    (allowed : config.exceeded? steps depth = none) :
    wider.exceeded? steps depth = none := by
  have bounds := within.stackSize
  unfold Config.exceeded? at allowed ⊢
  rw [Option.orElse_eq_orElse, Option.orElse_eq_or,
    Option.or_eq_none_iff] at allowed ⊢
  obtain ⟨inSteps, inStack⟩ := allowed
  constructor
  · cases limited : wider.maxSteps with
    | none => rfl
    | some most =>
        obtain ⟨fewer, isLimit, fewerSteps⟩ := within.steps most limited
        have counted : ¬ fewer < steps := by
          simpa [Option.mem_def.mp isLimit] using inSteps
        have countedToo : ¬ most < steps := by omega
        simp [countedToo]
  · have shallow : ¬ config.maxStackSize < depth := by simpa using inStack
    have shallowToo : ¬ wider.maxStackSize < depth := by omega
    simp [shallowToo]

namespace Eval

/-- A limit has ended the evaluation. -/
def CutShort (outcome : EStateM.Result Failure Run α) : Prop :=
  ∃ failure run,
    outcome = .error failure run ∧ failure.fault.label = .nonTermination

/--
An evaluation that ends as a shorter one does, unless a limit ends that one.
-/
def Outlasts (long short : Eval α) : Prop :=
  ∀ run, CutShort (short run) ∨ long run = short run

namespace Outlasts

theorem refl (action : Eval α) : Outlasts action action :=
  fun _ => .inr rfl

/-- A failure at a limit is outlasted by everything. -/
theorem ofLimit
    (long : Eval α)
    (limit : Limit) :
    Outlasts long (fail (.nonTermination limit)) :=
  fun run => .inl ⟨_, run, rfl, rfl⟩

/-- One evaluation after another. -/
theorem bind
    {long short : Eval α}
    {longRest shortRest : α → Eval β}
    (first : Outlasts long short)
    (second : ∀ a, Outlasts (longRest a) (shortRest a)) :
    Outlasts (long >>= longRest) (short >>= shortRest) := by
  intro run
  rcases first run with ⟨failure, next, fails, isLimit⟩ | same
  · exact .inl ⟨failure, next, bind_of_error fails, isLimit⟩
  · cases outcome : short run with
    | ok a next =>
        rw [bind_of_ok outcome, bind_of_ok (same.trans outcome)]
        exact second a next
    | error failure next =>
        rw [bind_of_error outcome, bind_of_error (same.trans outcome)]
        exact .inr rfl

/-- Recording where a failure arises does not change its cause. -/
theorem inside
    {long short : Eval α}
    (outlasts : Outlasts long short)
    (entry : String) :
    Outlasts (Eval.inside entry long) (Eval.inside entry short) := by
  intro run
  rcases outlasts run with ⟨failure, next, fails, isLimit⟩ | same
  · exact .inl
      ⟨failure.inside entry, next, by simp only [Eval.inside, fails], isLimit⟩
  · exact .inr (by simp only [Eval.inside, same])

theorem nested
    {long short : Eval α}
    (outlasts : Outlasts long short) :
    Outlasts (Eval.nested long) (Eval.nested short) := by
  intro run
  rcases outlasts { run with callDepth := run.callDepth + 1 } with
      ⟨failure, next, fails, isLimit⟩ | same
  · refine .inl
      ⟨failure, { next with callDepth := next.callDepth - 1 }, ?_, isLimit⟩
    simp only [Eval.nested, fails]
  · exact .inr (by simp only [Eval.nested, same])

end Outlasts

/-- A way of running programs that outlasts another one. -/
def Runner.Outlasts (long short : Runner) : Prop :=
  ∀ (scopes : Scopes) (frame : Option Nat) (code : Code),
    Eval.Outlasts (long scopes frame code) (short scopes frame code)

section Programs

variable
  {config wider : Config}
  (within : config.Within wider)

include within

theorem outlasts_tick : Outlasts (tick wider) (tick config) := by
  intro run
  rw [tick_apply, tick_apply]
  cases exceeded : config.exceeded? (run.steps + 1) run.stack.depth with
  | some limit => exact .inl ⟨_, _, rfl, rfl⟩
  | none =>
      rw [within.exceeded? exceeded]
      exact .inr rfl

theorem resolve_within
    (scopes : Scopes)
    (frame : Option Nat)
    (name : String) :
    resolve wider scopes frame name = resolve config scopes frame name := by
  simp only [resolve, within.nameResolution]

variable
  {long short : Runner}
  (runners : long.Outlasts short)
  (scopes : Scopes)

include runners

theorem outlasts_apply (entry : Entry) :
    Outlasts (apply wider long scopes entry)
      (apply config short scopes entry) := by
  refine Outlasts.inside ?_ entry.name
  obtain ⟨name, definition⟩ := entry
  cases definition with
  | scalar code => exact runners scopes none code
  | array grid =>
      refine .bind (.refl _) fun cells => .bind (.refl _) fun indices => ?_
      exact .bind (.refl _) fun code => runners scopes none code
  | function params body =>
      refine .bind (.refl _) fun arguments => ?_
      exact runners _ _ body
  | curve curve =>
      simp only [applyDefinition, within.extrapolation]
      exact .refl _

theorem outlasts_reference
    (frame : Option Nat)
    (cell : Cell)
    (name : String) :
    Outlasts
      (resolve wider scopes frame name >>= fun entry =>
        match useFault? cell entry with
        | some fault => fail fault
        | none => apply wider long scopes entry)
      (resolve config scopes frame name >>= fun entry =>
        match useFault? cell entry with
        | some fault => fail fault
        | none => apply config short scopes entry) := by
  rw [resolve_within within]
  refine .bind (.refl _) fun entry => ?_
  cases useFault? cell entry with
  | some fault => exact .refl _
  | none => exact outlasts_apply within runners scopes entry

theorem outlasts_execCell
    (frame : Option Nat)
    (cell : Cell) :
    Outlasts (execCell wider long scopes frame cell)
      (execCell config short scopes frame cell) := by
  cases cell with
  | literal value => exact .refl _
  | op operation => exact .refl _
  | «variable» name =>
      exact outlasts_reference within runners scopes frame _ name
  | lookup name => exact outlasts_reference within runners scopes frame _ name
  | call name arity =>
      exact outlasts_reference within runners scopes frame _ name
  | element name rank =>
      exact outlasts_reference within runners scopes frame _ name

theorem outlasts_execCells
    (frame : Option Nat)
    (code : Code) :
    Outlasts (execCells wider long scopes frame code)
      (execCells config short scopes frame code) := by
  induction code with
  | nil => exact .refl _
  | cons cell rest inductionHypothesis =>
      refine .bind (outlasts_tick within) fun _ => .bind ?_ fun _ =>
        inductionHypothesis
      exact outlasts_execCell within runners scopes frame cell

end Programs

/-- Programs outlast those that have fewer levels left and narrower limits. -/
theorem runProgram_outlasts
    {config wider : Config}
    (within : config.Within wider)
    {levels more : Nat}
    (fewer : levels ≤ more) :
    (runProgram wider more).Outlasts (runProgram config levels) := by
  induction levels generalizing more with
  | zero =>
      intro scopes frame code
      exact .ofLimit _ _
  | succ levels inductionHypothesis =>
      intro scopes frame code
      cases more with
      | zero => exact absurd fewer (Nat.not_succ_le_zero levels)
      | succ others =>
          have inner := inductionHypothesis (Nat.le_of_succ_le_succ fewer)
          exact (outlasts_execCells within inner scopes frame code).nested

theorem runTop_outlasts
    {config wider : Config}
    (within : config.Within wider) :
    (runTop wider).Outlasts (runTop config) :=
  runProgram_outlasts within within.callDepth

end Eval

end Formulary
