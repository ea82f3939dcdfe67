import Formulary.Proofs.Eval.Moment
import Mathlib.Algebra.Ring.Nat

namespace Formulary

open Stateful

/-!
# What an evaluation uses

Bounds that hold at every moment of an evaluation.  As many programs are being
executed as have been entered and not left, and each frame belongs to one of
them, but for a frame whose program is about to be entered.  A cell is executed
only when the limits on steps and on the stack allow it, and it leaves at most
one cell more than it found.
-/

namespace Eval

/-- Number of programs that are to be left. -/
def programs : List Pending → Nat
  | [] => 0
  | .cells _ _ :: outer => programs outer + 1
  | .frame :: outer => programs outer
  | .inside _ :: outer => programs outer

/-- Number of frames that are to be left. -/
def frames : List Pending → Nat
  | [] => 0
  | .cells _ _ :: outer => frames outer
  | .frame :: outer => frames outer + 1
  | .inside _ :: outer => frames outer

/--
What has been entered, each frame with the program of its function right inside
it.
-/
inductive Stacked : List Pending → Prop where
  | nil : Stacked []
  | program
      {outer : List Pending}
      (frame : Option Nat)
      (code : Code)
      (stacked : Stacked outer) :
      Stacked (.cells frame code :: outer)
  | body
      {outer : List Pending}
      (frame : Option Nat)
      (code : Code)
      (stacked : Stacked outer) :
      Stacked (.cells frame code :: .frame :: outer)
  | inside
      {outer : List Pending}
      (name : String)
      (stacked : Stacked outer) :
      Stacked (.inside name :: outer)

/--
The same, where the program of the innermost frame may not be entered yet or be
left again.
-/
inductive Opened : List Pending → Prop where
  | stacked
      {pending : List Pending}
      (stacked : Stacked pending) :
      Opened pending
  | frame
      {outer : List Pending}
      (stacked : Stacked outer) :
      Opened (.frame :: outer)

theorem Stacked.frames_le
    {pending : List Pending}
    (stacked : Stacked pending) :
    frames pending ≤ programs pending := by
  induction stacked with
  | nil => exact Nat.le_refl 0
  | program frame code stacked inductionHypothesis =>
      exact Nat.le_succ_of_le inductionHypothesis
  | body frame code stacked inductionHypothesis =>
      exact Nat.succ_le_succ inductionHypothesis
  | inside name stacked inductionHypothesis => exact inductionHypothesis

namespace Opened

variable {outer pending : List Pending}

theorem frames_le
    (opened : Opened pending) :
    frames pending ≤ programs pending + 1 := by
  cases opened with
  | stacked stacked => exact Nat.le_succ_of_le stacked.frames_le
  | frame stacked => exact Nat.succ_le_succ stacked.frames_le

/-- A program is entered right inside what is open. -/
theorem enter
    (opened : Opened pending)
    (frame : Option Nat)
    (code : Code) :
    Stacked (.cells frame code :: pending) := by
  cases opened with
  | stacked stacked => exact .program frame code stacked
  | frame stacked => exact .body frame code stacked

theorem leaveProgram
    {frame : Option Nat}
    {code : Code}
    (opened : Opened (.cells frame code :: outer)) :
    Opened outer := by
  cases opened with
  | stacked stacked =>
      cases stacked with
      | program _ _ stacked => exact .stacked stacked
      | body _ _ stacked => exact .frame stacked

theorem leaveFrame (opened : Opened (.frame :: outer)) : Opened outer := by
  cases opened with
  | stacked stacked => cases stacked
  | frame stacked => exact .stacked stacked

theorem leaveEntry
    {name : String}
    (opened : Opened (.inside name :: outer)) :
    Opened outer := by
  cases opened with
  | stacked stacked =>
      cases stacked with
      | inside _ stacked => exact .stacked stacked

end Opened

/-- A cell and an entry use the scopes, so no frame is open while they do. -/
def Task.Fits (pending : List Pending) : Task → Prop
  | .execute _ _ => Stacked pending
  | .start (.application _) => Stacked pending
  | _ => Opened pending

theorem Stacked.fits
    {pending : List Pending}
    (stacked : Stacked pending)
    (task : Task) :
    task.Fits pending := by
  cases task with
  | start work =>
      cases work with
      | program => exact .stacked stacked
      | application => exact stacked
  | execute => exact stacked
  | goOn => exact .stacked stacked
  | giveUp => exact .stacked stacked

theorem Task.Fits.opened
    {pending : List Pending}
    {task : Task}
    (fits : task.Fits pending) :
    Opened pending := by
  cases task with
  | start work =>
      cases work with
      | program => exact fits
      | application => exact .stacked fits
  | execute => exact .stacked fits
  | goOn => exact fits
  | giveUp => exact fits

end Eval

theorem Scopes.frames_left
    (scopes : Scopes) :
    scopes.left.frames = scopes.frames.tail := by
  obtain ⟨globals, frames⟩ := scopes
  cases frames <;> rfl

namespace Eval

namespace Moment

@[simp]
theorem after_run
    (task : α → Task)
    (scopes : Scopes)
    (pending : List Pending)
    (outcome : EStateM.Result Failure Run α) :
    (after task scopes pending outcome).run = final outcome := by
  cases outcome <;> rfl

@[simp]
theorem after_scopes
    (task : α → Task)
    (scopes : Scopes)
    (pending : List Pending)
    (outcome : EStateM.Result Failure Run α) :
    (after task scopes pending outcome).scopes = scopes := by
  cases outcome <;> rfl

@[simp]
theorem after_pending
    (task : α → Task)
    (scopes : Scopes)
    (pending : List Pending)
    (outcome : EStateM.Result Failure Run α) :
    (after task scopes pending outcome).pending = pending := by
  cases outcome <;> rfl

end Moment

/-- The counts of programs and frames are those of what has been entered. -/
structure Level
    (config : Config)
    (base : Nat)
    (scopes : Scopes)
    (run : Run)
    (pending : List Pending) :
    Prop where
  calls : run.callDepth = programs pending
  limit : programs pending ≤ config.maxCallDepth
  frames : scopes.frames.length = base + frames pending

namespace Level

variable
  {config : Config}
  {base : Nat}
  {scopes : Scopes}
  {run : Run}
  {outer pending : List Pending}
  {frame : Option Nat}
  {code : Code}

theorem ofSameDepth
    (level : Level config base scopes run pending)
    {next : Run}
    (same : SameDepth run next) :
    Level config base scopes next pending :=
  ⟨Eq.trans same level.calls, level.limit, level.frames⟩

theorem enterProgram
    (level : Level config base scopes run pending)
    (available : run.callDepth < config.maxCallDepth)
    (frame : Option Nat)
    (code : Code) :
    Level config base scopes run.entered (.cells frame code :: pending) := by
  refine ⟨congrArg (· + 1) level.calls, ?_, level.frames⟩
  rw [level.calls] at available
  exact available

theorem leaveProgram
    (level : Level config base scopes run (.cells frame code :: outer)) :
    Level config base scopes run.left outer := by
  refine ⟨?_, Nat.le_of_succ_le level.limit, level.frames⟩
  simp only [Run.left, level.calls, programs]
  omega

theorem enterFrame
    (level : Level config base scopes run pending)
    (bindings : Bindings) :
    Level config base (scopes.push bindings) run (.frame :: pending) :=
  ⟨level.calls, level.limit, congrArg (· + 1) level.frames⟩

theorem leaveFrame (level : Level config base scopes run (.frame :: outer)) :
    Level config base scopes.left run outer := by
  refine ⟨level.calls, level.limit, ?_⟩
  rw [Scopes.frames_left, List.length_tail, level.frames]
  rfl

theorem enterEntry
    (level : Level config base scopes run pending)
    (name : String) :
    Level config base scopes run (.inside name :: pending) :=
  ⟨level.calls, level.limit, level.frames⟩

theorem leaveEntry
    {name : String}
    (level : Level config base scopes run (.inside name :: outer)) :
    Level config base scopes run outer :=
  ⟨level.calls, level.limit, level.frames⟩

/-- The cells that are left do not count. -/
theorem skip
    (level : Level config base scopes run (.cells frame code :: outer))
    (rest : Code) :
    Level config base scopes run (.cells frame rest :: outer) :=
  ⟨level.calls, level.limit, level.frames⟩

end Level

/-- The task of a moment fits what has been entered, and so do its counts. -/
structure Moment.Nested
    (config : Config)
    (base : Nat)
    (moment : Moment) :
    Prop where
  fits : moment.task.Fits moment.pending
  level : Level config base moment.scopes moment.run moment.pending

namespace Moment.Nested

variable
  {config : Config}
  {base : Nat}
  {scopes : Scopes}
  {run : Run}
  {pending : List Pending}

/-- After an action that enters and leaves nothing. -/
theorem ofAction
    (level : Level config base scopes run pending)
    (stacked : Stacked pending)
    {action : Eval α}
    (balanced : Balanced action)
    (task : α → Task) :
    Nested config base (.after task scopes pending (action run)) := by
  constructor
  · rw [after_pending]
    exact stacked.fits _
  · rw [after_run, after_scopes, after_pending]
    exact level.ofSameDepth (balanced run)

theorem started
    {work : Work}
    (nested : Nested config base ⟨.start work, scopes, run, pending⟩) :
    Nested config base (.started config scopes run pending work) := by
  obtain ⟨fits, level⟩ := nested
  cases work with
  | program frame code =>
      by_cases exhausted : config.maxCallDepth ≤ run.callDepth
      · simp only [Moment.started, exhausted, if_true]
        exact ⟨fits, level⟩
      · have entered :=
          level.enterProgram (Nat.lt_of_not_le exhausted) frame code
        simp only [Moment.started, exhausted, if_false]
        exact ⟨(Opened.enter fits frame code).fits _, entered⟩
  | application entry =>
      obtain ⟨name, definition⟩ := entry
      have inner : Stacked (.inside name :: pending) := .inside name fits
      have innerLevel := level.enterEntry name
      cases definition with
      | scalar code => exact ⟨inner.fits _, innerLevel⟩
      | array grid =>
          exact .ofAction innerLevel inner (balanced_select name grid) _
      | function params body =>
          have kept := balanced_popMany params.length run
          simp only [Moment.started]
          cases popped : popMany params.length run with
          | ok arguments next =>
              rw [popped] at kept
              exact ⟨.frame inner, (innerLevel.ofSameDepth kept).enterFrame _⟩
          | error failure next =>
              rw [popped] at kept
              exact ⟨.stacked inner, innerLevel.ofSameDepth kept⟩
      | curve curve =>
          exact .ofAction innerLevel inner (balanced_interpolate config curve) _

theorem executed
    {frame : Option Nat}
    {cell : Cell}
    (nested : Nested config base ⟨.execute frame cell, scopes, run, pending⟩) :
    Nested config base (.executed config scopes run pending frame cell) := by
  obtain ⟨stacked, level⟩ := nested
  cases cell with
  | literal value =>
      exact .ofAction level stacked (balanced_push (.literal value))
        fun _ => .goOn
  | op operation => exact .ofAction level stacked (balanced_operate operation) _
  | «variable» name =>
      exact .ofAction level stacked
        (balanced_refer config scopes frame _ name) _
  | lookup name =>
      exact .ofAction level stacked
        (balanced_refer config scopes frame _ name) _
  | call name arity =>
      exact .ofAction level stacked
        (balanced_refer config scopes frame _ name) _
  | element name rank =>
      exact .ofAction level stacked
        (balanced_refer config scopes frame _ name) _

/-- Leaving what was entered last, whatever the task is afterwards. -/
theorem leave
    {innermost : Pending}
    {outer : List Pending}
    (opened : Opened (innermost :: outer))
    (level : Level config base scopes run (innermost :: outer))
    {task : Task}
    (fits : Opened outer → task.Fits outer) :
    Nested config base (.leave task scopes run outer innermost) := by
  cases innermost with
  | cells frame code => exact ⟨fits opened.leaveProgram, level.leaveProgram⟩
  | frame => exact ⟨fits opened.leaveFrame, level.leaveFrame⟩
  | inside name => exact ⟨fits opened.leaveEntry, level.leaveEntry⟩

/-- What has been entered stays in order from one moment to the next. -/
theorem next
    {first second : Moment}
    (nested : Nested config base first)
    (follows : first.next? config = some second) :
    Nested config base second := by
  obtain ⟨task, scopes, run, pending⟩ := first
  cases task with
  | start work =>
      cases follows
      exact nested.started
  | execute frame cell =>
      cases follows
      exact nested.executed
  | goOn =>
      obtain ⟨opened, level⟩ := nested
      simp only [next?, resumed] at follows
      split at follows
      · cases follows
      · rename_i frame cell rest outer
        cases follows
        have stacked := (Opened.leaveProgram opened).enter frame rest
        exact .ofAction (level.skip rest) stacked (balanced_tick config) _
      · cases follows
        exact .leave opened level id
  | giveUp failure =>
      obtain ⟨opened, level⟩ := nested
      cases pending with
      | nil => cases follows
      | cons innermost outer =>
          cases follows
          exact .leave opened level id

end Moment.Nested

/-! How much an evaluation adds to the stack and to the count of steps. -/

/-- So many cells more on the stack at most, and no step taken back. -/
structure Adds (more : Nat) (run next : Run) : Prop where
  stack : next.stack.depth ≤ run.stack.depth + more
  steps : run.steps ≤ next.steps

/-- An evaluation that leaves so many cells more at most. -/
abbrev AddsAtMost (more : Nat) (action : Eval α) : Prop :=
  Keeps (Adds more) action

namespace AddsAtMost

theorem bind
    {more : Nat}
    {action : Eval α}
    {rest : α → Eval β}
    (first : AddsAtMost 0 action)
    (second : ∀ a, AddsAtMost more (rest a)) :
    AddsAtMost more (action >>= rest) := by
  intro run
  have start := first run
  cases outcome : action run with
  | ok a next =>
      rw [outcome] at start
      have finish := second a next
      rw [bind_of_ok outcome]
      exact ⟨Nat.le_trans finish.stack (Nat.add_le_add_right start.stack more),
        Nat.le_trans start.steps finish.steps⟩
  | error failure next =>
      rw [outcome] at start
      rw [bind_of_error outcome]
      exact ⟨Nat.le_trans start.stack (Nat.le_add_right _ more), start.steps⟩

theorem ofExcept
    (result : Except Fault α) :
    AddsAtMost 0 (ofExcept result) := by
  intro run
  cases result with
  | ok a => exact ⟨Nat.le_refl _, Nat.le_refl _⟩
  | error fault => exact ⟨Nat.le_refl _, Nat.le_refl _⟩

theorem push (cell : Cell) : AddsAtMost 1 (push cell) :=
  fun _ => ⟨Nat.le_refl _, Nat.le_refl _⟩

/-- The cell that is taken makes room for another one. -/
theorem ofPop
    {more : Nat}
    {rest : Cell → Eval β}
    (adds : ∀ cell, AddsAtMost (more + 1) (rest cell)) :
    AddsAtMost more (pop >>= rest) := by
  intro run
  obtain ⟨⟨cells⟩, steps, calls⟩ := run
  cases cells with
  | nil => exact ⟨Nat.le_add_right _ _, Nat.le_refl _⟩
  | cons cell others =>
      obtain ⟨stack, counted⟩ := adds cell ⟨⟨others⟩, steps, calls⟩
      refine ⟨Nat.le_trans stack ?_, counted⟩
      simp only [Stack.depth, List.length_cons]
      omega

theorem popMany (count : Nat) : AddsAtMost 0 (popMany count) := by
  intro run
  by_cases short : run.stack.depth < count
  · simp only [Eval.popMany, bind_get, Stack.popMany, short, if_true]
    exact ⟨Nat.le_refl _, Nat.le_refl _⟩
  · simp only [Eval.popMany, bind_get, Stack.popMany, short, if_false]
    refine ⟨?_, Nat.le_refl _⟩
    show (run.stack.cells.drop count).length ≤ run.stack.cells.length
    rw [List.length_drop]
    exact Nat.sub_le _ _

theorem operate (op : Op) : AddsAtMost 0 (operate op) := by
  have replaced (result : Except Fault Value) :
      AddsAtMost 1
        (Eval.ofExcept result >>= fun value => Eval.push (.literal value)) :=
    bind (ofExcept result) fun value => push _
  unfold Eval.operate
  split
  · exact ofPop fun a => replaced _
  · refine ofPop fun b => ofPop fun a => fun run => ?_
    obtain ⟨stack, steps⟩ := replaced (op.binaryResult a b) run
    exact ⟨Nat.le_succ_of_le stack, steps⟩

theorem interpolate
    (config : Config)
    (curve : Curve) :
    AddsAtMost 0 (interpolate config curve) :=
  ofPop fun _ => bind (ofExcept _) fun _ => bind (ofExcept _) fun _ => push _

theorem select
    (name : String)
    (grid : Grid) :
    AddsAtMost 0 (select name grid) :=
  bind (popMany _) fun _ => bind (ofExcept _) fun _ => ofExcept _

theorem refer
    (config : Config)
    (scopes : Scopes)
    (frame : Option Nat)
    (cell : Cell)
    (name : String) :
    AddsAtMost 0 (refer config scopes frame cell name) := by
  intro run
  rcases refer_apply config scopes frame cell name run with
      ⟨entry, same⟩ | ⟨fault, same⟩
  · rw [same]
    exact ⟨Nat.le_refl _, Nat.le_refl _⟩
  · rw [same]
    exact ⟨Nat.le_refl _, Nat.le_refl _⟩

end AddsAtMost

/-- Number of cells a task executes itself. -/
def Task.executions : Task → Nat
  | .execute _ _ => 1
  | _ => 0

/-- Number of cells executed at some moments. -/
def executions (moments : List Moment) : Nat :=
  (moments.map fun moment => moment.task.executions).sum

namespace Moment

/-- The stack and the count of cells keep to the limits. -/
structure Spare
    (config : Config)
    (height total : Nat)
    (moment : Moment) :
    Prop where
  stack : moment.run.stack.depth ≤ max height (config.maxStackSize + 1)
  /-- A cell that is being executed leaves one more cell at most. -/
  room : moment.task.executions = 1 →
    moment.run.stack.depth ≤ config.maxStackSize
  counted : total ≤ moment.run.steps
  limited : ∀ most, config.maxSteps = some most → total ≤ most

namespace Spare

variable
  {config : Config}
  {height total : Nat}
  {first second : Moment}

/-- A moment at which no cell is executed and no cell more lies on the stack. -/
theorem rest
    (spare : Spare config height total first)
    (adds : Adds 0 first.run second.run)
    (idle : second.task.executions = 0) :
    Spare config height (total + second.task.executions) second := by
  rw [idle]
  refine ⟨Nat.le_trans adds.stack spare.stack, ?_, ?_, spare.limited⟩
  · intro executing
    rw [idle] at executing
    cases executing
  · exact Nat.le_trans spare.counted adds.steps

/-- After an action, with a task that executes no cell. -/
theorem ofAction
    (spare : Spare config height total first)
    {action : Eval α}
    (adds : AddsAtMost 0 action)
    {task : α → Task}
    (idle : ∀ a, (task a).executions = 0)
    {scopes : Scopes}
    {pending : List Pending}
    (follows : second = .after task scopes pending (action first.run)) :
    Spare config height (total + second.task.executions) second := by
  subst follows
  refine spare.rest ?_ ?_
  · rw [after_run]
    exact adds first.run
  · cases action first.run with
    | ok a next => exact idle a
    | error failure next => rfl

theorem started
    {work : Work}
    {scopes : Scopes}
    {run : Run}
    {pending : List Pending}
    (spare : Spare config height total ⟨.start work, scopes, run, pending⟩)
    (follows : second = .started config scopes run pending work) :
    Spare config height (total + second.task.executions) second := by
  have unchanged : Adds 0 run run := ⟨Nat.le_refl _, Nat.le_refl _⟩
  cases work with
  | program frame code =>
      by_cases exhausted : config.maxCallDepth ≤ run.callDepth
      · obtain rfl := follows.trans (if_pos exhausted)
        exact spare.rest unchanged rfl
      · obtain rfl := follows.trans (if_neg exhausted)
        exact spare.rest ⟨Nat.le_refl _, Nat.le_refl _⟩ rfl
  | application entry =>
      obtain ⟨name, definition⟩ := entry
      cases definition with
      | scalar code =>
          subst follows
          exact spare.rest unchanged rfl
      | array grid =>
          exact spare.ofAction (.select name grid) (fun _ => rfl) follows
      | function params body =>
          subst follows
          have popped := AddsAtMost.popMany params.length run
          simp only [Moment.started]
          cases outcome : popMany params.length run with
          | ok arguments next =>
              rw [outcome] at popped
              exact spare.rest popped rfl
          | error failure next =>
              rw [outcome] at popped
              exact spare.rest popped rfl
      | curve curve =>
          exact spare.ofAction (.interpolate config curve)
            (fun _ => rfl) follows

theorem executed
    {frame : Option Nat}
    {cell : Cell}
    {scopes : Scopes}
    {run : Run}
    {pending : List Pending}
    (spare :
      Spare config height total ⟨.execute frame cell, scopes, run, pending⟩)
    (follows : second = .executed config scopes run pending frame cell) :
    Spare config height (total + second.task.executions) second := by
  cases cell with
  | literal value =>
      subst follows
      have room : run.stack.depth ≤ config.maxStackSize := spare.room rfl
      refine ⟨?_, nofun, spare.counted, spare.limited⟩
      exact Nat.le_trans (Nat.succ_le_succ room) (Nat.le_max_right _ _)
  | op operation =>
      exact spare.ofAction (.operate operation) (fun _ => rfl) follows
  | «variable» name =>
      exact spare.ofAction (.refer config scopes frame _ name)
        (fun _ => rfl) follows
  | lookup name =>
      exact spare.ofAction (.refer config scopes frame _ name)
        (fun _ => rfl) follows
  | call name arity =>
      exact spare.ofAction (.refer config scopes frame _ name)
        (fun _ => rfl) follows
  | element name rank =>
      exact spare.ofAction (.refer config scopes frame _ name)
        (fun _ => rfl) follows

/-- A cell is executed only when the limits allow it. -/
theorem ticked
    {frame : Option Nat}
    {cell : Cell}
    {scopes : Scopes}
    {pending : List Pending}
    (spare : Spare config height total first)
    (follows :
      second = .after (fun _ => .execute frame cell) scopes pending
        (tick config first.run)) :
    Spare config height (total + second.task.executions) second := by
  subst follows
  have counting : total + 1 ≤ first.run.steps + 1 :=
    Nat.succ_le_succ spare.counted
  rw [tick_apply]
  cases exceeded : config.exceeded? (first.run.steps + 1)
      first.run.stack.depth with
  | some limit => exact spare.rest ⟨Nat.le_refl _, Nat.le_succ _⟩ rfl
  | none =>
      obtain ⟨inSteps, inStack⟩ := Config.exceeded?_eq_none exceeded
      exact ⟨spare.stack, fun _ => inStack, counting, fun most limited =>
        Nat.le_trans counting (inSteps most limited)⟩

theorem leave
    (spare : Spare config height total first)
    {task : Task}
    (idle : task.executions = 0)
    {scopes : Scopes}
    {outer : List Pending}
    {innermost : Pending}
    (follows : second = .leave task scopes first.run outer innermost) :
    Spare config height (total + second.task.executions) second := by
  subst follows
  cases innermost with
  | cells frame code => exact spare.rest ⟨Nat.le_refl _, Nat.le_refl _⟩ idle
  | frame => exact spare.rest ⟨Nat.le_refl _, Nat.le_refl _⟩ idle
  | inside name => exact spare.rest ⟨Nat.le_refl _, Nat.le_refl _⟩ idle

/-- The limits are kept from one moment to the next. -/
theorem next
    (spare : Spare config height total first)
    (follows : first.next? config = some second) :
    Spare config height (total + second.task.executions) second := by
  obtain ⟨task, scopes, run, pending⟩ := first
  cases task with
  | start work => exact spare.started (Option.some.inj follows).symm
  | execute frame cell => exact spare.executed (Option.some.inj follows).symm
  | goOn =>
      simp only [next?, resumed] at follows
      split at follows
      · cases follows
      · exact spare.ticked (Option.some.inj follows).symm
      · exact spare.leave rfl (Option.some.inj follows).symm
  | giveUp failure =>
      cases pending with
      | nil => cases follows
      | cons innermost outer =>
          exact spare.leave rfl (Option.some.inj follows).symm

end Spare

end Moment

/-! The bounds at every moment of a whole evaluation. -/

namespace Path

variable
  {config : Config}
  {first last : Moment}
  {later : List Moment}

/-- What has been entered is in order at every moment. -/
theorem nested
    (path : Path config first later last)
    {base : Nat}
    (start : first.Nested config base) :
    ∀ moment ∈ first :: later, moment.Nested config base := by
  induction path with
  | stop moment => simpa using start
  | step follows rest inductionHypothesis =>
      intro moment member
      rcases List.mem_cons.mp member with rfl | isLater
      · exact start
      · exact inductionHypothesis (start.next follows) moment isLater

/--
The limits are kept at every moment, and the cells counted at the end are those
executed.
-/
theorem spare
    (path : Path config first later last)
    {height total : Nat}
    (start : first.Spare config height total) :
    (∀ moment ∈ first :: later,
        moment.run.stack.depth ≤ max height (config.maxStackSize + 1)) ∧
      last.Spare config height (total + executions later) := by
  induction path generalizing total with
  | stop moment =>
      refine ⟨?_, start⟩
      intro moment member
      obtain rfl := List.mem_singleton.mp member
      exact start.stack
  | step follows rest inductionHypothesis =>
      obtain ⟨stack, finish⟩ := inductionHypothesis (start.next follows)
      constructor
      · intro moment member
        rcases List.mem_cons.mp member with rfl | isLater
        · exact start.stack
        · exact stack moment isLater
      · rw [Nat.add_assoc] at finish
        exact finish

end Path

end Eval

/-- The global scope alone. -/
def Scopes.ofGlobals (globals : Bindings) : Scopes :=
  ⟨globals, []⟩

namespace Eval

/--
Every evaluation stops, with the outcome of the work it was asked for.  At every
moment no more programs are being executed than may nest, and there are at most
two scopes more than that: the global one, and the frame of a program that is
not entered.  The stack is at most one cell higher than its limit, unless it was
higher at the start, and no more cells are executed than there may be steps.
-/
theorem evaluation_stops_within_limits
    (config : Config)
    (globals : Bindings)
    (stack : Stack)
    (work : Work) :
    let scopes := Scopes.ofGlobals globals
    let start : Moment := ⟨.start work, scopes, ⟨stack, 0, 0⟩, []⟩
    ∃ later last,
      Path config start later last ∧
      last.next? config = none ∧
      last = .ending scopes []
        (work.action config (runTop config) scopes ⟨stack, 0, 0⟩) ∧
      (∀ moment ∈ start :: later,
        moment.run.callDepth ≤ config.maxCallDepth ∧
        moment.scopes.depth ≤ config.maxCallDepth + 2 ∧
        moment.run.stack.depth ≤ max stack.depth (config.maxStackSize + 1)) ∧
      ∀ most, config.maxSteps = some most → executions later ≤ most := by
  intro scopes start
  obtain ⟨later, path⟩ := leads_work config work scopes stack 0 []
  have nestedStart : start.Nested config 0 :=
    ⟨Stacked.nil.fits _, ⟨rfl, Nat.zero_le _, rfl⟩⟩
  have spareStart : start.Spare config stack.depth 0 :=
    ⟨Nat.le_max_left _ _, nofun, Nat.le_refl 0, fun _ _ => Nat.zero_le _⟩
  obtain ⟨inStack, counted⟩ := path.spare spareStart
  refine ⟨later, _, path, ?_, rfl, ?_, ?_⟩
  · cases work.action config (runTop config) scopes ⟨stack, 0, 0⟩ with
    | ok _ run => rfl
    | error failure run => rfl
  · intro moment member
    obtain ⟨fits, level⟩ := path.nested nestedStart moment member
    have opened : Opened moment.pending := fits.opened
    refine ⟨?_, ?_, inStack moment member⟩
    · rw [level.calls]
      exact level.limit
    · have inFrames := opened.frames_le
      have limit := level.limit
      rw [Scopes.depth, level.frames]
      omega
  · intro most limited
    simpa using counted.limited most limited

-- No program may be entered, and yet there are two scopes.
example :
    (Moment.next? { maxCallDepth := 0 }
      ⟨.start (.application ⟨"f", .function [] []⟩), .ofGlobals .empty,
        ⟨.empty, 0, 0⟩, []⟩).map
        (fun moment => moment.scopes.depth) = some 2 := by
  rfl

end Eval

end Formulary
