import Formulary.Proofs.Eval.Bounds
import Formulary.Proofs.Eval.Finite

namespace Formulary

open Stateful

/-!
# Where values that are not finite come from

At every moment of an evaluation that starts on finite values, and has not been
given up, the values on the stack are finite, unless some moment before looked
up a table at a place where its value is not finite.  Nothing else that is done
brings such a value about, so that it is either refused at once or a table's.
-/

/-- An entry all of whose literals are finite. -/
def Entry.FiniteLiterals (entry : Entry) : Prop :=
  ∀ code ∈ entry.programs, code.Finite

/-- Every entry in any scope has finite literals. -/
structure Scopes.FiniteLiterals (scopes : Scopes) : Prop where
  globals : ∀ entry ∈ scopes.globals.entries, entry.FiniteLiterals
  frames :
    ∀ frame ∈ scopes.frames, ∀ entry ∈ frame.entries, entry.FiniteLiterals

namespace Scopes.FiniteLiterals

variable
  {scopes : Scopes}
  (finite : scopes.FiniteLiterals)

include finite

theorem push
    (params : List String)
    {cells : List Cell}
    (cellsFinite : ∀ cell ∈ cells, cell.Finite) :
    (scopes.push (Bindings.ofArguments params cells)).FiniteLiterals := by
  refine ⟨finite.globals, forall_frames_push finite.frames params ?_⟩
  intro cell isArgument param code isProgram
  obtain rfl := List.mem_singleton.mp isProgram
  exact List.forall_mem_singleton.mpr (cellsFinite cell isArgument)

theorem left : scopes.left.FiniteLiterals := by
  obtain ⟨globals, frames⟩ := scopes
  cases frames with
  | nil => exact finite
  | cons innermost outer =>
      exact ⟨finite.globals, fun frame member =>
        finite.frames frame (List.mem_cons_of_mem innermost member)⟩

theorem of_mem
    {entry : Entry}
    (member :
      (∃ frame ∈ scopes.frames, entry ∈ frame.entries) ∨
        entry ∈ scopes.globals.entries) :
    entry.FiniteLiterals := by
  rcases member with ⟨frame, isFrame, held⟩ | isGlobal
  · exact finite.frames frame isFrame entry held
  · exact finite.globals entry isGlobal

end Scopes.FiniteLiterals

namespace Eval

def Work.Finite : Work → Prop
  | .program _ code => code.Finite
  | .application entry => entry.FiniteLiterals

def Task.Finite : Task → Prop
  | .start work => work.Finite
  | .execute _ cell => cell.Finite
  | _ => True

def Pending.Finite : Pending → Prop
  | .cells _ code => code.Finite
  | _ => True

namespace Moment

/--
An evaluation that has been given up, or that works with finite values only.
-/
inductive Finite : Moment → Prop where
  | givenUp
      (failure : Failure)
      (scopes : Scopes)
      (run : Run)
      (pending : List Pending) :
      Finite ⟨.giveUp failure, scopes, run, pending⟩
  | working
      {task : Task}
      {scopes : Scopes}
      {run : Run}
      {pending : List Pending}
      (taskFinite : task.Finite)
      (scopesFinite : scopes.FiniteLiterals)
      (stackFinite : run.stack.Finite)
      (pendingFinite : ∀ item ∈ pending, item.Finite) :
      Finite ⟨task, scopes, run, pending⟩

/-- A table is looked up at a place where its value is not finite. -/
def Overflows (config : Config) (moment : Moment) : Prop :=
  ∃ name curve, moment.task = .start (.application ⟨name, .curve curve⟩) ∧
    ∃ cell below x y,
      moment.run.stack.cells = cell :: below ∧ cell.number = .ok x ∧
      curve.valueAt config.extrapolation x = .ok y ∧ y.isFinite = false

end Moment

theorem staysFinite_select
    (name : String)
    {grid : Grid}
    (finite : (Entry.mk name (.array grid)).FiniteLiterals) :
    StaysFinite Code.Finite (select name grid) := by
  have elements (indices : List Int64) :
      Yields Code.Finite
        ((grid.element indices).mapError (Fault.index name)) := by
    intro code found
    rcases Grid.mem_of_element (except_mapError_eq_ok.mp found) with
        isElement | rfl
    · exact finite code isElement
    · exact Code.finite_push trivial
  exact .bind (.popMany _) fun cells _ =>
    .bind (.ofExcept (.any _)) fun indices _ =>
      .ofExcept (elements indices)

theorem staysFinite_refer
    (config : Config)
    {scopes : Scopes}
    (finite : scopes.FiniteLiterals)
    (frame : Option Nat)
    (cell : Cell)
    (name : String) :
    StaysFinite Entry.FiniteLiterals (refer config scopes frame cell name) := by
  have resolves :
      StaysFinite Entry.FiniteLiterals (resolve config scopes frame name) := by
    rw [resolve_eq]
    cases found : lookup? config scopes frame name with
    | none => exact .fail _
    | some entry => exact .pure (finite.of_mem (mem_of_lookup? found))
  refine resolves.bind fun entry entryFinite => ?_
  cases useFault? cell entry with
  | some fault => exact .fail fault
  | none => exact .pure entryFinite

/-- A table that has been looked up has replaced the operand by its value. -/
theorem of_interpolate
    {config : Config}
    {curve : Curve}
    {run next : Run}
    (succeeds : interpolate config curve run = .ok () next) :
    ∃ cell below x y, run.stack.cells = cell :: below ∧ cell.number = .ok x ∧
      curve.valueAt config.extrapolation x = .ok y ∧
        next.stack = ⟨.literal (.double y) :: below⟩ := by
  obtain ⟨⟨cells⟩, steps, calls⟩ := run
  cases cells with
  | nil => cases succeeds
  | cons cell below =>
      have popped :
          pop ⟨⟨cell :: below⟩, steps, calls⟩ =
            .ok cell ⟨⟨below⟩, steps, calls⟩ :=
        rfl
      rw [interpolate, bind_of_ok popped] at succeeds
      cases number : cell.number with
      | error fault =>
          rw [number] at succeeds
          cases succeeds
      | ok x =>
          rw [number] at succeeds
          cases value : curve.valueAt config.extrapolation x with
          | error fault =>
              simp only [ofExcept_ok, pure_bind, value] at succeeds
              cases succeeds
          | ok y =>
              simp only [ofExcept_ok, pure_bind, value] at succeeds
              cases succeeds
              exact ⟨cell, below, x, y, rfl, number, value, rfl⟩

namespace Moment

variable
  {config : Config}
  {scopes : Scopes}
  {run : Run}
  {pending : List Pending}

/-- After an action that keeps finite what is finite. -/
theorem Finite.ofAction
    (scopesFinite : scopes.FiniteLiterals)
    (stackFinite : run.stack.Finite)
    (pendingFinite : ∀ item ∈ pending, item.Finite)
    {gives : α → Prop}
    {action : Eval α}
    (stays : StaysFinite gives action)
    (task : α → Task)
    (tasks : ∀ a, gives a → (task a).Finite) :
    Finite (.after task scopes pending (action run)) := by
  cases outcome : action run with
  | error failure next => exact .givenUp failure scopes next pending
  | ok a next =>
      obtain ⟨nextFinite, isHeld⟩ := stays run a next stackFinite outcome
      exact .working (tasks a isHeld) scopesFinite nextFinite pendingFinite

theorem Finite.inside
    (pendingFinite : ∀ item ∈ pending, item.Finite)
    (name : String) :
    ∀ item ∈ Pending.inside name :: pending, item.Finite :=
  List.forall_mem_cons.mpr ⟨trivial, pendingFinite⟩

/-- Only the start of a table can bring about a value that is not finite. -/
theorem Finite.started
    {work : Work}
    (workFinite : work.Finite)
    (scopesFinite : scopes.FiniteLiterals)
    (stackFinite : run.stack.Finite)
    (pendingFinite : ∀ item ∈ pending, item.Finite) :
    Overflows config ⟨.start work, scopes, run, pending⟩ ∨
      Finite (.started config scopes run pending work) := by
  cases work with
  | program frame code =>
      by_cases exhausted : config.maxCallDepth ≤ run.callDepth
      · simp only [Moment.started, exhausted, if_true]
        exact .inr (.givenUp _ _ _ _)
      · simp only [Moment.started, exhausted, if_false]
        exact .inr (.working trivial scopesFinite stackFinite
          (List.forall_mem_cons.mpr ⟨workFinite, pendingFinite⟩))
  | application entry =>
      obtain ⟨name, definition⟩ := entry
      have insideFinite := Finite.inside pendingFinite name
      cases definition with
      | scalar code =>
          have codeFinite : code.Finite := workFinite code List.mem_cons_self
          exact .inr (.working codeFinite scopesFinite stackFinite insideFinite)
      | array grid =>
          exact .inr (.ofAction scopesFinite stackFinite insideFinite
            (staysFinite_select name workFinite) _
            fun code codeFinite => codeFinite)
      | function params body =>
          have bodyFinite : body.Finite := workFinite body List.mem_cons_self
          refine .inr ?_
          simp only [Moment.started]
          cases popped : popMany params.length run with
          | error failure next => exact .givenUp failure scopes next _
          | ok arguments next =>
              obtain ⟨nextFinite, argumentsFinite⟩ :=
                StaysFinite.popMany params.length run arguments next
                  stackFinite popped
              exact .working bodyFinite
                (scopesFinite.push params argumentsFinite) nextFinite
                (List.forall_mem_cons.mpr ⟨trivial, insideFinite⟩)
      | curve curve =>
          simp only [Moment.started]
          cases outcome : interpolate config curve run with
          | error failure next => exact .inr (.givenUp failure scopes next _)
          | ok _ next =>
              obtain ⟨cell, below, x, y, shape, number, value, replaced⟩ :=
                of_interpolate outcome
              cases isFinite : y.isFinite with
              | false =>
                  exact .inl ⟨name, curve, rfl, cell, below, x, y, shape,
                    number, value, isFinite⟩
              | true =>
                  have nextFinite : next.stack.Finite := by
                    rw [Stack.Finite, shape] at stackFinite
                    rw [replaced]
                    exact List.forall_mem_cons.mpr
                      ⟨isFinite, (List.forall_mem_cons.mp stackFinite).2⟩
                  exact .inr
                    (.working trivial scopesFinite nextFinite insideFinite)

theorem Finite.executed
    {cell : Cell}
    (cellFinite : cell.Finite)
    (scopesFinite : scopes.FiniteLiterals)
    (stackFinite : run.stack.Finite)
    (pendingFinite : ∀ item ∈ pending, item.Finite)
    (frame : Option Nat) :
    Finite (.executed config scopes run pending frame cell) := by
  have referred (cell : Cell) (name : String) :
      Finite (.after (fun entry => .start (.application entry)) scopes pending
        (refer config scopes frame cell name run)) :=
    .ofAction scopesFinite stackFinite pendingFinite
      (staysFinite_refer config scopesFinite frame cell name) _
      fun entry entryFinite => entryFinite
  cases cell with
  | literal value =>
      exact .ofAction scopesFinite stackFinite pendingFinite (.push cellFinite)
        (fun _ => .goOn) fun _ _ => trivial
  | op operation =>
      exact .ofAction scopesFinite stackFinite pendingFinite
        (.operate operation) (fun _ => .goOn) fun _ _ => trivial
  | «variable» name => exact referred (.variable name) name
  | lookup name => exact referred (.lookup name) name
  | call name arity => exact referred (.call name arity) name
  | element name rank => exact referred (.element name rank) name

/-- What is left because of a failure has been given up. -/
theorem Finite.abandoned
    {failure : Failure}
    {second : Moment}
    (follows : Moment.abandoned failure scopes run pending = some second) :
    second.Finite := by
  cases pending with
  | nil => cases follows
  | cons innermost outer =>
      cases follows
      cases innermost with
      | cells | frame | inside => exact .givenUp _ _ _ _

theorem Finite.resumed
    (scopesFinite : scopes.FiniteLiterals)
    (stackFinite : run.stack.Finite)
    (pendingFinite : ∀ item ∈ pending, item.Finite)
    {second : Moment}
    (follows : Moment.resumed config scopes run pending = some second) :
    second.Finite := by
  cases pending with
  | nil => cases follows
  | cons innermost outer =>
      obtain ⟨innermostFinite, outerFinite⟩ :=
        List.forall_mem_cons.mp pendingFinite
      cases innermost with
      | cells frame code =>
          cases code with
          | nil =>
              cases follows
              exact .working trivial scopesFinite stackFinite outerFinite
          | cons cell rest =>
              cases follows
              obtain ⟨cellFinite, restFinite⟩ :=
                List.forall_mem_cons.mp innermostFinite
              have restPending : (Pending.cells frame rest).Finite := restFinite
              exact .ofAction scopesFinite stackFinite
                (List.forall_mem_cons.mpr ⟨restPending, outerFinite⟩)
                (.tick config) _
                fun _ _ => cellFinite
      | frame =>
          cases follows
          exact .working trivial scopesFinite.left stackFinite outerFinite
      | inside name =>
          cases follows
          exact .working trivial scopesFinite stackFinite outerFinite

/--
From one moment to the next, only a table brings about a value that is not
finite.
-/
theorem Finite.next
    {first second : Moment}
    (finite : first.Finite)
    (follows : first.next? config = some second) :
    first.Overflows config ∨ second.Finite := by
  cases finite with
  | givenUp failure scopes run pending => exact .inr (.abandoned follows)
  | @working task scopes run pending taskFinite scopesFinite stackFinite
        pendingFinite =>
      cases task with
      | start work =>
          cases follows
          exact Finite.started taskFinite scopesFinite stackFinite pendingFinite
      | execute frame cell =>
          cases follows
          exact .inr
            (.executed taskFinite scopesFinite stackFinite pendingFinite frame)
      | goOn =>
          exact .inr (.resumed scopesFinite stackFinite pendingFinite follows)
      | giveUp failure => exact .inr (.abandoned follows)

/--
The values at a moment are finite, unless the evaluation has been given up.
-/
theorem Finite.stack
    {moment : Moment}
    (finite : moment.Finite) :
    (∃ failure, moment.task = .giveUp failure) ∨ moment.run.stack.Finite := by
  cases finite with
  | givenUp failure => exact .inl ⟨failure, rfl⟩
  | working _ _ stackFinite => exact .inr stackFinite

end Moment

/-- All moments are finite, or a table is looked up where its value is not. -/
theorem Path.finite
    {config : Config}
    {first last : Moment}
    {later : List Moment}
    (path : Path config first later last)
    (start : first.Finite) :
    (∀ moment ∈ first :: later, moment.Finite) ∨
      ∃ moment ∈ first :: later, moment.Overflows config := by
  induction path with
  | stop moment => exact .inl (by simpa using start)
  | @step first second last later follows rest inductionHypothesis =>
      rcases start.next follows with overflows | secondFinite
      · exact .inr ⟨first, List.mem_cons_self, overflows⟩
      · rcases inductionHypothesis secondFinite with
            allFinite | ⟨moment, member, overflows⟩
        · exact .inl (List.forall_mem_cons.mpr ⟨start, allFinite⟩)
        · exact .inr ⟨moment, List.mem_cons_of_mem first member, overflows⟩

end Eval

end Formulary
