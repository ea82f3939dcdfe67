import Formulary.Proofs.Eval.Reached
import Formulary.Proofs.Eval.Simulation

namespace Formulary

open Stateful

/-!
# The chain of entries in which a failure arises

An entry that fails either does so itself, or a reference in its program finds
another entry, on which the same can be said.  The call stack of a failure
lists the entries on this way: each of them refers to the next one at the cell
that its program has come to, and the last one fails itself.
-/

namespace Eval

/-- An entry that is applied to the operands on a stack. -/
structure Activation where
  /-- Levels left for the program of the entry. -/
  levels : Nat
  scopes : Scopes
  entry : Entry
  run : Run

namespace Activation

/-- What becomes of the entry. -/
def outcome
    (config : Config)
    (activation : Activation) :
    EStateM.Result Failure Run Unit :=
  apply config (runProgram config activation.levels) activation.scopes
    activation.entry activation.run

/-- The program of the entry has been executed up to a cell. -/
structure Executes
    (config : Config)
    (activation : Activation)
    (start : Point)
    (cell : Cell)
    (reached : Run) : Prop where
  left : activation.levels = start.levels + 1
  enters : Enters start.levels activation.scopes activation.entry.definition
    activation.run start
  upTo :
    ∃ before after, start.code = before ++ cell :: after ∧
      execCells config (runProgram config start.levels) start.scopes
        start.frame before start.run = .ok () reached

/--
A cell in the program of one entry refers to another, which is applied there.
-/
inductive Refers
    (config : Config)
    (outer : Activation) :
    Activation → Prop where
  | cell
      {start : Point}
      {cell : Cell}
      {reached ticked : Run}
      {entry : Entry}
      (executes : outer.Executes config start cell reached)
      (counted : tick config reached = .ok () ticked)
      (reference : cell.reference? = some entry.name)
      (found : lookup? config start.scopes start.frame entry.name = some entry)
      (usable : useFault? cell entry = none) :
      Refers config outer ⟨start.levels, start.scopes, entry, ticked⟩

/-- The entry fails with nothing else being evaluated inside it. -/
inductive FailsItself
    (config : Config)
    (activation : Activation) :
    Fault → Prop where
  /-- Its operands are refused, whatever programs do. -/
  | operands
      {fault : Fault}
      {next : Run}
      (refused :
        ∀ runner,
          applyDefinition config runner activation.scopes activation.entry.name
            activation.entry.definition activation.run =
              .error (Failure.ofFault fault) next) :
      FailsItself config activation fault
  /-- No level is left for its program. -/
  | callDepth
      {start : Point}
      (exhausted : activation.levels = 0)
      (enters : Enters 0 activation.scopes activation.entry.definition
        activation.run start) :
      FailsItself config activation
        (.nonTermination (.callDepth config.maxCallDepth))
  /-- A limit is exceeded when a cell of its program is to be executed. -/
  | limit
      {start : Point}
      {cell : Cell}
      {reached : Run}
      {limit : Limit}
      (executes : activation.Executes config start cell reached)
      (exceeded :
        config.exceeded? (reached.steps + 1) reached.stack.depth = some limit) :
      FailsItself config activation (.nonTermination limit)
  /-- An operation of its program refuses its operands. -/
  | operation
      {start : Point}
      {op : Op}
      {reached ticked next : Run}
      {fault : Fault}
      (executes : activation.Executes config start (.op op) reached)
      (counted : tick config reached = .ok () ticked)
      (refused : operate op ticked = .error (Failure.ofFault fault) next) :
      FailsItself config activation fault
  /-- A name in its program is not bound. -/
  | unbound
      {start : Point}
      {cell : Cell}
      {reached ticked : Run}
      {name : String}
      (executes : activation.Executes config start cell reached)
      (counted : tick config reached = .ok () ticked)
      (reference : cell.reference? = some name)
      (missing : lookup? config start.scopes start.frame name = none) :
      FailsItself config activation (.unboundName name)
  /-- A reference in its program may not use the entry it finds. -/
  | unusable
      {start : Point}
      {cell : Cell}
      {reached ticked : Run}
      {name : String}
      {entry : Entry}
      {fault : Fault}
      (executes : activation.Executes config start cell reached)
      (counted : tick config reached = .ok () ticked)
      (reference : cell.reference? = some name)
      (found : lookup? config start.scopes start.frame name = some entry)
      (refused : useFault? cell entry = some fault) :
      FailsItself config activation fault

/-- A failure is that of an entry, or of an entry it refers to. -/
inductive FailsAlong (config : Config) : Activation → Failure → Prop where
  | here
      {activation : Activation}
      {fault : Fault}
      (fails : activation.FailsItself config fault) :
      FailsAlong config activation
        ((Failure.ofFault fault).inside activation.entry.name)
  | inside
      {outer inner : Activation}
      {failure : Failure}
      (refers : outer.Refers config inner)
      (along : FailsAlong config inner failure) :
      FailsAlong config outer (failure.inside outer.entry.name)

/--
Activations that lead from an entry to the one that fails, as a call stack names
them.
-/
structure LeadsTo
    (config : Config)
    (first : Activation)
    (failure : Failure)
    (chain : List Activation) : Prop where
  starts : chain.head? = some first
  linked : List.IsChain (Refers config) chain
  ends : ∃ last,
    chain.getLast? = some last ∧ last.FailsItself config failure.fault
  named : failure.callStack = chain.map fun activation => activation.entry.name
  /-- Each of them but the first takes a level. -/
  bounded : chain.length ≤ first.levels + 1

theorem Refers.levels
    {config : Config}
    {outer inner : Activation}
    (refers : outer.Refers config inner) :
    outer.levels = inner.levels + 1 := by
  cases refers with
  | cell executes => exact executes.left

theorem FailsAlong.exists_chain
    {config : Config}
    {first : Activation}
    {failure : Failure}
    (along : FailsAlong config first failure) :
    ∃ chain, LeadsTo config first failure chain := by
  induction along with
  | @here activation fault fails =>
      exact ⟨[activation],
        { starts := rfl
          linked := .singleton activation
          ends := ⟨activation, rfl, fails⟩
          named := rfl
          bounded := Nat.le_add_left 1 activation.levels }⟩
  | @inside outer inner failure refers along inductionHypothesis =>
      obtain ⟨chain, leads⟩ := inductionHypothesis
      obtain ⟨others, rfl⟩ := List.head?_eq_some_iff.mp leads.starts
      obtain ⟨last, isLast, fails⟩ := leads.ends
      have taken := refers.levels
      have bounded := leads.bounded
      exact ⟨outer :: inner :: others,
        { starts := rfl
          linked := .cons_cons refers leads.linked
          ends := ⟨last, by rw [List.getLast?_cons_cons]; exact isLast, fails⟩
          named := congrArg (outer.entry.name :: ·) leads.named
          bounded := by rw [List.length_cons]; omega }⟩

end Activation

open Activation

/-- An evaluation whose failures are faults outside every entry. -/
def FailsOutside (action : Eval α) : Prop :=
  ∀ run failure next, action run = .error failure next → ∃ fault,
    failure = Failure.ofFault fault

namespace FailsOutside

theorem bind
    {action : Eval α}
    {rest : α → Eval β}
    (first : FailsOutside action)
    (second : ∀ a, FailsOutside (rest a)) :
    FailsOutside (action >>= rest) := by
  intro run failure last fails
  rcases bind_eq_error.mp fails with failsFirst | ⟨a, next, -, failsRest⟩
  · exact first run failure last failsFirst
  · exact second a next failure last failsRest

theorem ofExcept
    (result : Except Fault α) :
    FailsOutside (ofExcept result) := by
  intro run failure next fails
  cases result with
  | ok a => cases fails
  | error fault =>
      cases fails
      exact ⟨fault, rfl⟩

theorem push (cell : Cell) : FailsOutside (push cell) := by
  intro run failure next fails
  cases fails

theorem pop : FailsOutside pop := by
  intro run failure next fails
  obtain ⟨⟨cells⟩, steps, calls⟩ := run
  cases cells with
  | nil =>
      cases fails
      exact ⟨_, rfl⟩
  | cons cell rest => cases fails

theorem operate (op : Op) : FailsOutside (operate op) := by
  unfold Eval.operate
  split
  · exact .bind .pop fun a => .bind (.ofExcept _) fun _ => .push _
  · exact .bind .pop fun b => .bind .pop fun a =>
      .bind (.ofExcept _) fun _ => .push _

end FailsOutside

/--
A definition comes to the same end whatever programs do, with no entry named in
a failure.
-/
def EndsAlone
    (config : Config)
    (scopes : Scopes)
    (name : String)
    (definition : Definition)
    (run : Run) : Prop :=
  ∃ result : EStateM.Result Failure Run Unit,
    (∀ runner,
      applyDefinition config runner scopes name definition run = result) ∧
      ∀ failure next, result = .error failure next → ∃ fault,
        failure = Failure.ofFault fault

/-- A definition hands over to the program it enters. -/
def HandsOver
    (config : Config)
    (scopes : Scopes)
    (name : String)
    (definition : Definition)
    (run : Run) : Prop :=
  ∃ inner frame code next,
    (∀ levels, Enters levels scopes definition run
      (.start levels inner frame code next)) ∧
      ∀ runner, applyDefinition config runner scopes name definition run =
        runner inner frame code next

theorem EndsAlone.ofError
    {config : Config}
    {scopes : Scopes}
    {name : String}
    {definition : Definition}
    {run next : Run}
    {fault : Fault}
    (fails :
      ∀ runner, applyDefinition config runner scopes name definition run =
        .error (Failure.ofFault fault) next) :
    EndsAlone config scopes name definition run := by
  refine ⟨_, fails, fun failure last same => ?_⟩
  cases same
  exact ⟨fault, rfl⟩

theorem endsAlone_or_handsOver
    (config : Config)
    (scopes : Scopes)
    (name : String)
    (definition : Definition)
    (run : Run) :
    EndsAlone config scopes name definition run ∨
      HandsOver config scopes name definition run := by
  cases definition with
  | scalar code =>
      exact .inr
        ⟨scopes, none, code, run, fun _ => .scalar code run, fun _ => rfl⟩
  | array grid =>
      by_cases short : run.stack.depth < grid.rank
      · exact .inl
          (.ofError fun runner => bind_of_error (popMany_of_short short))
      have popped := popMany_of_enough short
      cases read : (run.stack.cells.take grid.rank).reverse.mapM Cell.index with
      | error fault =>
          have refuses (runner : Runner) :
              applyDefinition config runner scopes name (.array grid) run =
                .error (Failure.ofFault fault)
                  { run with stack := ⟨run.stack.cells.drop grid.rank⟩ } := by
            rw [applyDefinition, bind_of_ok popped, read]
            rfl
          exact .inl (.ofError refuses)
      | ok indices =>
          cases found : grid.element indices with
          | error fault =>
              have refuses (runner : Runner) :
                  applyDefinition config runner scopes name (.array grid) run =
                    .error (Failure.ofFault (.index name fault))
                      { run with stack :=
                        ⟨run.stack.cells.drop grid.rank⟩ } := by
                rw [applyDefinition, bind_of_ok popped, read, ofExcept_ok,
                  pure_bind, found]
                rfl
              exact .inl (.ofError refuses)
          | ok code =>
              refine .inr
                ⟨scopes, none, code, _, fun _ => .array popped read found, ?_⟩
              intro runner
              rw [applyDefinition, bind_of_ok popped, read, ofExcept_ok,
                pure_bind, found]
              rfl
  | function params body =>
      by_cases short : run.stack.depth < params.length
      · exact .inl
          (.ofError fun runner => bind_of_error (popMany_of_short short))
      have popped := popMany_of_enough short
      exact .inr ⟨_, _, body, _, fun _ => .function popped, fun runner =>
        bind_of_ok popped⟩
  | curve curve =>
      refine .inl ⟨_, fun _ => rfl, ?_⟩
      exact FailsOutside.bind .pop (fun cell => .bind (.ofExcept _) fun x =>
        .bind (.ofExcept _) fun y => .push _) run

/-- With so many levels left, failures are traced to where they arise. -/
def Traceable (config : Config) (levels : Nat) : Prop :=
  ∀ (scopes : Scopes) (entry : Entry) (run : Run)
    (failure : Failure) (next : Run),
    Activation.outcome config ⟨levels, scopes, entry, run⟩ =
      .error failure next →
      FailsAlong config ⟨levels, scopes, entry, run⟩ failure

/--
Executing the rest of a program fails in the entry itself or in one it refers
to.
-/
theorem failsAlong_of_execCells
    {config : Config}
    (activation : Activation)
    (start : Point)
    (traceable : Traceable config start.levels)
    (left : activation.levels = start.levels + 1)
    (enters :
      Enters start.levels activation.scopes activation.entry.definition
        activation.run start)
    (before : Code)
    {rest : Code}
    {run next : Run}
    {failure : Failure}
    (split : start.code = before ++ rest)
    (executed :
      execCells config (runProgram config start.levels) start.scopes
        start.frame before start.run = .ok () run)
    (fails :
      execCells config (runProgram config start.levels) start.scopes
        start.frame rest run =
        .error failure next) :
    FailsAlong config activation (failure.inside activation.entry.name) := by
  induction rest generalizing before run with
  | nil => cases fails
  | cons cell after inductionHypothesis =>
      have executes : activation.Executes config start cell run :=
        ⟨left, enters, before, after, split, executed⟩
      rcases bind_eq_error.mp fails with limited | ⟨_, ticked, counted, fails⟩
      · rw [tick_apply] at limited
        split at limited
        · rename_i limit exceeded
          cases limited
          exact .here (.limit executes exceeded)
        · cases limited
      rcases bind_eq_error.mp fails with
          failsHere | ⟨_, later, succeeds, failsLater⟩
      · cases referring : cell.reference? with
        | none =>
            cases cell with
            | literal value => cases failsHere
            | op operation =>
                obtain ⟨fault, rfl⟩ :=
                  FailsOutside.operate operation _ _ _ failsHere
                exact .here (.operation executes counted failsHere)
            | «variable» | lookup | call | element => cases referring
        | some name =>
            rw [execCell_reference start.frame referring,
              resolve_eq] at failsHere
            cases found : lookup? config start.scopes start.frame name with
            | none =>
                rw [found] at failsHere
                cases failsHere
                exact .here (.unbound executes counted referring found)
            | some entry =>
                rw [found, bind_pure] at failsHere
                cases use : useFault? cell entry with
                | some fault =>
                    rw [use] at failsHere
                    cases failsHere
                    exact .here (.unusable executes counted referring found use)
                | none =>
                    rw [use] at failsHere
                    obtain rfl : entry.name = name :=
                      (binds_of_lookup? found).name_eq
                    exact .inside (.cell executes counted referring found use)
                      (traceable _ _ _ _ _ failsHere)
      · refine inductionHypothesis (before ++ [cell])
          (by simp [split]) ?_ failsLater
        rw [execCells_append, bind_of_ok executed, execCells_single,
          bind_of_ok counted]
        exact succeeds

/-- Failures are traced with some levels left when they are with fewer. -/
theorem Traceable.step
    {config : Config}
    {levels : Nat}
    (inner : ∀ fewer, levels = fewer + 1 → Traceable config fewer) :
    Traceable config levels := by
  intro scopes entry run failure next fails
  unfold Activation.outcome apply Eval.inside at fails
  split at fails
  · cases fails
  rename_i cause later outcome
  cases fails
  rcases endsAlone_or_handsOver config scopes entry.name
    entry.definition run with
      ⟨result, same, outside⟩
        | ⟨within, frame, code, started, enters, handsOver⟩
  · rw [same] at outcome
    obtain ⟨fault, rfl⟩ := outside cause next outcome
    exact .here (.operands fun runner => (same runner).trans outcome)
  · rw [handsOver] at outcome
    cases levels with
    | zero =>
        cases outcome
        exact .here (.callDepth rfl (enters 0))
    | succ fewer =>
        simp only [runProgram, nested] at outcome
        split at outcome
        · cases outcome
        · rename_i deeper last failsInside
          cases outcome
          exact failsAlong_of_execCells ⟨fewer + 1, scopes, entry, run⟩
            (.start fewer within frame code started) (inner fewer rfl) rfl
            (enters fewer) [] rfl
            rfl failsInside

/-- Every failure is traced to where it arises, whatever levels are left. -/
theorem traceable
    (config : Config)
    (levels : Nat) :
    Traceable config levels := by
  induction levels with
  | zero => exact .step nofun
  | succ levels inductionHypothesis =>
      refine .step fun fewer same => ?_
      obtain rfl := Nat.succ.inj same
      exact inductionHypothesis

/-- From an entry that fails, activations lead to the one that fails itself. -/
theorem exists_chain_of_outcome
    {config : Config}
    {activation : Activation}
    {failure : Failure}
    {next : Run}
    (fails : activation.outcome config = .error failure next) :
    ∃ chain, activation.LeadsTo config failure chain :=
  (traceable config activation.levels _ _ _ failure next fails).exists_chain

end Eval

end Formulary
