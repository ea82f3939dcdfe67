import Formulary.Proofs.Eval.CallDepth

namespace Formulary

open Stateful

/-!
# Evaluation moment by moment

A machine that does one thing at a time: it enters a program, counts and
executes a cell, evaluates an entry on its operands, or leaves what it entered.
What it has to come back to is kept in a list.  It knows nothing of the levels
that are left: that it stops is a theorem, and so is that it stops with the
outcome of the evaluation.
-/

namespace Eval

/-- What an evaluation is asked for. -/
inductive Work where
  /-- A program, perhaps inside a frame. -/
  | program (frame : Option Nat) (code : Code)
  /-- An entry, on the operands that lie on the stack. -/
  | application (entry : Entry)

/-- Some work, given a way of running programs. -/
def Work.action
    (config : Config)
    (runner : Runner)
    (scopes : Scopes) :
    Work → Eval Unit
  | .program frame code => runner scopes frame code
  | .application entry => apply config runner scopes entry

/-- What is done next. -/
inductive Task where
  | start (work : Work)
  /-- A cell of a program, which has been counted. -/
  | execute (frame : Option Nat) (cell : Cell)
  /-- Come back after a success. -/
  | goOn
  /-- Come back after a failure. -/
  | giveUp (failure : Failure)

/-- Something that has been entered and is to be left. -/
inductive Pending where
  /-- A program, with the cells that are still to be executed. -/
  | cells (frame : Option Nat) (code : Code)
  /-- The frame of a function. -/
  | frame
  /-- An entry, whose name a failure records. -/
  | inside (name : String)

/-- A point of an evaluation. -/
structure Moment where
  task : Task
  scopes : Scopes
  run : Run
  /-- What has been entered, the innermost first. -/
  pending : List Pending

end Eval

/-- The run inside one more program. -/
def Run.entered (run : Run) : Run :=
  { run with callDepth := run.callDepth + 1 }

/-- The run once a program is left. -/
def Run.left (run : Run) : Run :=
  { run with callDepth := run.callDepth - 1 }

/-- The scopes once the innermost frame is left. -/
def Scopes.left (scopes : Scopes) : Scopes :=
  match scopes.pop? with
  | some (_, outer) => outer
  | none => scopes

namespace Eval

/-- The program of the element that the operands select. -/
def select (name : String) (grid : Grid) : Eval Code := do
  let cells ← popMany grid.rank
  let indices ← ofExcept (cells.mapM Cell.index)
  ofExcept ((grid.element indices).mapError (.index name))

/-- The value of a table at the operand. -/
def interpolate (config : Config) (curve : Curve) : Eval Unit := do
  let cell ← pop
  let x ← ofExcept cell.number
  let y ← ofExcept
    ((curve.valueAt config.extrapolation x).mapError .curveDomain)
  push (.literal (.double y))

/-- The entry that a reference finds and may use. -/
def refer
    (config : Config)
    (scopes : Scopes)
    (frame : Option Nat)
    (cell : Cell)
    (name : String) :
    Eval Entry := do
  let entry ← resolve config scopes frame name
  match useFault? cell entry with
  | some fault => fail fault
  | none => pure entry

/-- A failure as it is seen from outside what is left. -/
def Pending.record (failure : Failure) : Pending → Failure
  | .inside name => failure.inside name
  | _ => failure

namespace Moment

/-- The moment after an action, with a task for what it gives. -/
def after
    (task : α → Task)
    (scopes : Scopes)
    (pending : List Pending) :
    EStateM.Result Failure Run α → Moment
  | .ok a run => ⟨task a, scopes, run, pending⟩
  | .error failure run => ⟨.giveUp failure, scopes, run, pending⟩

/-- The moment at which work is done, or has failed. -/
abbrev ending (scopes : Scopes) (pending : List Pending) :
    EStateM.Result Failure Run Unit → Moment :=
  after (fun _ => .goOn) scopes pending

/-- The moment after the arguments of a function have been taken. -/
def called
    (params : List String)
    (body : Code)
    (scopes : Scopes)
    (pending : List Pending) :
    EStateM.Result Failure Run (List Cell) → Moment
  | .ok arguments run =>
      ⟨.start (.program (some scopes.depth) body),
        scopes.push (Bindings.ofArguments params arguments), run,
        .frame :: pending⟩
  | .error failure run => ⟨.giveUp failure, scopes, run, pending⟩

/-- Start some work. -/
def started
    (config : Config)
    (scopes : Scopes)
    (run : Run)
    (pending : List Pending) :
    Work → Moment
  | .program frame code =>
      -- The limit is checked when the frame of a function is in place already.
      if config.maxCallDepth ≤ run.callDepth then
        ⟨.giveUp (Failure.ofFault
          (.nonTermination (.callDepth config.maxCallDepth))), scopes,
          run, pending⟩
      else ⟨.goOn, scopes, run.entered, .cells frame code :: pending⟩
  | .application ⟨name, .scalar code⟩ =>
      ⟨.start (.program none code), scopes, run, .inside name :: pending⟩
  | .application ⟨name, .array grid⟩ =>
      after (fun code => .start (.program none code)) scopes
        (.inside name :: pending) (select name grid run)
  | .application ⟨name, .function params body⟩ =>
      called params body scopes (.inside name :: pending)
        (popMany params.length run)
  | .application ⟨name, .curve curve⟩ =>
      ending scopes (.inside name :: pending) (interpolate config curve run)

/-- Execute a cell. -/
def executed
    (config : Config)
    (scopes : Scopes)
    (run : Run)
    (pending : List Pending)
    (frame : Option Nat)
    (cell : Cell) :
    Moment :=
  match cell with
  | .literal _ => ending scopes pending (push cell run)
  | .op operation => ending scopes pending (operate operation run)
  | .variable name | .lookup name | .call name _ | .element name _ =>
      after (fun entry => .start (.application entry)) scopes pending
        (refer config scopes frame cell name run)

/-- Leave what was entered last, for a task. -/
def leave
    (task : Task)
    (scopes : Scopes)
    (run : Run)
    (outer : List Pending) :
    Pending → Moment
  | .cells _ _ => ⟨task, scopes, run.left, outer⟩
  | .frame => ⟨task, scopes.left, run, outer⟩
  | .inside _ => ⟨task, scopes, run, outer⟩

/-- Come back to what was entered last. -/
def resumed
    (config : Config)
    (scopes : Scopes)
    (run : Run) :
    List Pending → Option Moment
  | [] => none
  | .cells frame (cell :: code) :: outer =>
      some (after (fun _ => .execute frame cell) scopes
        (.cells frame code :: outer) (tick config run))
  | innermost :: outer => some (leave .goOn scopes run outer innermost)

/-- Leave what was entered last because of a failure. -/
def abandoned
    (failure : Failure)
    (scopes : Scopes)
    (run : Run) :
    List Pending → Option Moment
  | [] => none
  | innermost :: outer =>
      some
        (leave (.giveUp (innermost.record failure)) scopes run outer innermost)

/--
The moment that follows, unless everything that was entered has been left.
-/
def next? (config : Config) : Moment → Option Moment
  | ⟨.start work, scopes, run, pending⟩ =>
      some (started config scopes run pending work)
  | ⟨.execute frame cell, scopes, run, pending⟩ =>
      some (executed config scopes run pending frame cell)
  | ⟨.goOn, scopes, run, pending⟩ => resumed config scopes run pending
  | ⟨.giveUp failure, scopes, run, pending⟩ =>
      abandoned failure scopes run pending

end Moment

/-- The moments that follow a first one, up to a last one. -/
inductive Path (config : Config) : Moment → List Moment → Moment → Prop where
  | stop (moment : Moment) :
      Path config moment [] moment
  | step
      {first second last : Moment}
      {later : List Moment}
      (follows : first.next? config = some second)
      (rest : Path config second later last) :
      Path config first (second :: later) last

/-- One path after another. -/
theorem Path.append
    {config : Config}
    {first middle last : Moment}
    {leading trailing : List Moment}
    (before : Path config first leading middle)
    (after : Path config middle trailing last) :
    Path config first (leading ++ trailing) last := by
  induction before with
  | stop moment => exact after
  | step follows rest inductionHypothesis =>
      exact .step follows (inductionHypothesis after)

/-- A moment comes some time after another, or is the same. -/
def Leads (config : Config) (first last : Moment) : Prop :=
  ∃ later, Path config first later last

namespace Leads

variable
  {config : Config}
  {first middle last : Moment}

theorem refl (moment : Moment) : Leads config moment moment :=
  ⟨[], .stop moment⟩

theorem trans
    (before : Leads config first middle)
    (after : Leads config middle last) :
    Leads config first last := by
  obtain ⟨leading, leadingPath⟩ := before
  obtain ⟨trailing, trailingPath⟩ := after
  exact ⟨leading ++ trailing, leadingPath.append trailingPath⟩

theorem head
    (follows : first.next? config = some middle)
    (after : Leads config middle last) :
    Leads config first last := by
  obtain ⟨later, path⟩ := after
  exact ⟨middle :: later, .step follows path⟩

theorem one
    (follows : first.next? config = some last) :
    Leads config first last :=
  head follows (refl last)

/-- An entry is left as its evaluation ends, and a failure records it. -/
theorem inside
    {action : Eval Unit}
    {run : Run}
    {scopes : Scopes}
    {name : String}
    {pending : List Pending}
    (leads : Leads config
      first (.ending scopes (.inside name :: pending) (action run))) :
    Leads config
      first (.ending scopes pending (Eval.inside name action run)) := by
  refine leads.trans ?_
  unfold Eval.inside
  cases action run with
  | ok _ next => exact one rfl
  | error failure next => exact one rfl

/-- The frame of a function is left as its body ends. -/
theorem frame
    {outcome : EStateM.Result Failure Run Unit}
    {scopes : Scopes}
    {bindings : Bindings}
    {pending : List Pending}
    (leads : Leads config
      first (.ending (scopes.push bindings) (.frame :: pending) outcome)) :
    Leads config first (.ending scopes pending outcome) := by
  refine leads.trans ?_
  cases outcome with
  | ok _ next => exact one rfl
  | error failure next => exact one rfl

end Leads

/-- Leave a program as its cells end. -/
def leaving (action : Eval α) : Eval α := fun run =>
  match action run with
  | .ok a run => .ok a run.left
  | .error failure run => .error failure run.left

/-- Referring to an entry changes nothing. -/
theorem refer_apply
    (config : Config)
    (scopes : Scopes)
    (frame : Option Nat)
    (cell : Cell)
    (name : String)
    (run : Run) :
    (∃ entry, refer config scopes frame cell name run = .ok entry run) ∨
      ∃ fault, refer config scopes frame cell name run =
        .error (Failure.ofFault fault) run := by
  simp only [refer, resolve_eq]
  cases lookup? config scopes frame name with
  | none => exact .inr ⟨_, rfl⟩
  | some entry =>
      cases use : useFault? cell entry with
      | some fault => exact .inr ⟨fault, by simp [use, fail]⟩
      | none => exact .inl ⟨entry, by simp [use]⟩

theorem balanced_select
    (name : String)
    (grid : Grid) :
    Balanced (select name grid) :=
  balanced_bind (balanced_popMany _) fun _ =>
    balanced_bind (balanced_ofExcept _) fun _ => balanced_ofExcept _

theorem balanced_interpolate
    (config : Config)
    (curve : Curve) :
    Balanced (interpolate config curve) :=
  balanced_bind balanced_pop fun _ =>
    balanced_bind (balanced_ofExcept _) fun _ =>
      balanced_bind (balanced_ofExcept _) fun _ => balanced_push _

theorem balanced_refer
    (config : Config)
    (scopes : Scopes)
    (frame : Option Nat)
    (cell : Cell)
    (name : String) :
    Balanced (refer config scopes frame cell name) := by
  intro run
  rcases refer_apply config scopes frame cell name run with
      ⟨entry, same⟩ | ⟨fault, same⟩
  · rw [same]
    rfl
  · rw [same]
    rfl

/-- The same number of levels is left at the same depth. -/
theorem SameDepth.level
    {run next : Run}
    {levels most : Nat}
    (kept : SameDepth run next)
    (level : run.callDepth + levels = most) :
    next.callDepth + levels = most := by
  rw [kept, level]

/-- With so many levels left, a program is executed step by step. -/
def Traced (config : Config) (levels : Nat) : Prop :=
  ∀ (scopes : Scopes) (frame : Option Nat) (code : Code) (run : Run)
    (pending : List Pending),
    run.callDepth + levels = config.maxCallDepth →
      Leads config ⟨.start (.program frame code), scopes, run, pending⟩
        (.ending scopes pending
          (runProgram config levels scopes frame code run))

section Steps

variable
  {config : Config}
  {levels : Nat}
  (traced : Traced config levels)
  (scopes : Scopes)
  {run : Run}
  (pending : List Pending)
  (level : run.callDepth + levels = config.maxCallDepth)
include traced level

/-- An entry is evaluated step by step. -/
theorem leads_entry (entry : Entry) :
    Leads config ⟨.start (.application entry), scopes, run, pending⟩
      (.ending scopes pending
        (apply config (runProgram config levels) scopes entry run)) := by
  obtain ⟨name, definition⟩ := entry
  refine Leads.inside ?_
  cases definition with
  | scalar code => exact .head rfl (traced scopes none code run _ level)
  | array grid =>
      have selects :
          applyDefinition config (runProgram config levels) scopes name
            (.array grid) =
            select name grid >>= runProgram config levels scopes none := by
        simp only [applyDefinition, select, bind_assoc]
      have kept := balanced_select name grid run
      have follows :
          Moment.next? config
            ⟨.start (.application ⟨name, .array grid⟩), scopes, run, pending⟩ =
            some (.after (fun code => .start (.program none code)) scopes
              (.inside name :: pending) (select name grid run)) :=
        rfl
      refine .head follows ?_
      rw [selects]
      cases selected : select name grid run with
      | ok code next =>
          rw [selected] at kept
          rw [bind_of_ok selected]
          exact traced scopes none code next _ (SameDepth.level kept level)
      | error failure next =>
          rw [bind_of_error selected]
          exact .refl _
  | function params body =>
      have kept := balanced_popMany params.length run
      have follows :
          Moment.next? config
              ⟨.start (.application ⟨name, .function params body⟩), scopes, run,
                pending⟩ =
            some (.called params body scopes (.inside name :: pending)
              (popMany params.length run)) :=
        rfl
      refine .head follows ?_
      simp only [applyDefinition]
      cases popped : popMany params.length run with
      | ok arguments next =>
          rw [popped] at kept
          rw [bind_of_ok popped]
          exact Leads.frame
            (traced _ _ body next _ (SameDepth.level kept level))
      | error failure next =>
          rw [bind_of_error popped]
          exact .refl _
  | curve curve => exact .one rfl

/-- A cell is executed step by step. -/
theorem leads_cell
    (frame : Option Nat)
    (cell : Cell) :
    Leads config ⟨.execute frame cell, scopes, run, pending⟩
      (.ending scopes pending
        (execCell config (runProgram config levels) scopes frame
          cell run)) := by
  cases referring : cell.reference? with
  | none =>
      cases cell with
      | literal value => exact .one rfl
      | op operation => exact .one rfl
      | «variable» | lookup | call | element => cases referring
  | some name =>
      have refers :
          execCell config (runProgram config levels) scopes frame cell =
            refer config scopes frame cell name >>=
              apply config (runProgram config levels) scopes := by
        rw [execCell_reference frame referring, refer, bind_assoc]
        congr 1
        funext entry
        cases useFault? cell entry <;> rfl
      have follows :
          Moment.next? config ⟨.execute frame cell, scopes, run, pending⟩ =
            some
              (.after (fun entry => .start (.application entry)) scopes pending
                (refer config scopes frame cell name run)) := by
        cases cell <;> cases referring <;> rfl
      refine .head follows ?_
      rw [refers]
      rcases refer_apply config scopes frame cell name run with
          ⟨entry, found⟩ | ⟨fault, refused⟩
      · rw [found, bind_of_ok found]
        exact leads_entry traced scopes pending level entry
      · rw [refused, bind_of_error refused]
        exact .refl _

omit level in
/-- The cells of a program are executed one after the other. -/
theorem leads_cells
    (frame : Option Nat)
    (code : Code)
    {run : Run}
    (level : run.callDepth + levels = config.maxCallDepth) :
    Leads config ⟨.goOn, scopes, run, .cells frame code :: pending⟩
      (.ending scopes pending
        (leaving (execCells config (runProgram config levels) scopes frame code)
          run)) := by
  induction code generalizing run with
  | nil => exact .one rfl
  | cons cell rest inductionHypothesis =>
      have counted := balanced_tick config run
      have follows :
          Moment.next? config
            ⟨.goOn, scopes, run, .cells frame (cell :: rest) :: pending⟩ =
            some (.after (fun _ => .execute frame cell) scopes
              (.cells frame rest :: pending) (tick config run)) :=
        rfl
      refine .head follows ?_
      cases ticked : tick config run with
      | error failure next =>
          rw [leaving, execCells, bind_of_error ticked]
          exact .one rfl
      | ok _ afterTick =>
          rw [ticked] at counted
          have afterLevel :
              afterTick.callDepth + levels = config.maxCallDepth :=
            SameDepth.level counted level
          refine (leads_cell traced scopes _ afterLevel frame cell).trans ?_
          have kept :
              Balanced (execCell config (runProgram config levels) scopes
                frame cell) :=
            balanced_execCell (runProgram_balances config levels)
              scopes frame cell
          have keptHere := kept afterTick
          rw [leaving, execCells, bind_of_ok ticked]
          cases executed : execCell config (runProgram config levels)
            scopes frame cell
              afterTick with
          | error failure next =>
              rw [bind_of_error executed]
              exact .one rfl
          | ok _ next =>
              rw [executed] at keptHere
              rw [bind_of_ok executed]
              exact inductionHypothesis (SameDepth.level keptHere afterLevel)

end Steps

/-- Programs are executed step by step at every level of nesting. -/
theorem traced
    (config : Config)
    (levels : Nat) :
    Traced config levels := by
  induction levels with
  | zero =>
      intro scopes frame code run pending level
      have exhausted : config.maxCallDepth ≤ run.callDepth := by
        omega
      refine .one ?_
      simp only [Moment.next?, Moment.started, exhausted, if_true]
      rfl
  | succ levels inductionHypothesis =>
      intro scopes frame code run pending level
      have available : ¬ config.maxCallDepth ≤ run.callDepth := by
        omega
      have entered : run.entered.callDepth + levels = config.maxCallDepth := by
        simp only [Run.entered]
        omega
      have follows :
          Moment.next? config
            ⟨.start (.program frame code), scopes, run, pending⟩ =
            some ⟨.goOn, scopes, run.entered,
              .cells frame code :: pending⟩ := by
        simp only [Moment.next?, Moment.started, available, if_false]
      exact .head follows
        (leads_cells inductionHypothesis scopes pending frame code entered)

/-- Work that starts outside every program is done step by step. -/
theorem leads_work
    (config : Config)
    (work : Work)
    (scopes : Scopes)
    (stack : Stack)
    (steps : Nat)
    (pending : List Pending) :
    Leads config ⟨.start work, scopes, ⟨stack, steps, 0⟩, pending⟩
      (.ending scopes pending
        (work.action config (runTop config) scopes ⟨stack, steps, 0⟩)) := by
  have level : 0 + config.maxCallDepth = config.maxCallDepth := Nat.zero_add _
  cases work with
  | program frame code =>
      exact traced config _ scopes frame code _ pending level
  | application entry =>
      exact leads_entry (traced config _) scopes pending level entry

end Eval

end Formulary
