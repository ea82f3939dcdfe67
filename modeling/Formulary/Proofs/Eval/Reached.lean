import Formulary.Compile.Signature
import Formulary.Proofs.Eval.Confined
import Formulary.Proofs.Eval.Faults
import Mathlib.Logic.Relation

namespace Formulary

open Stateful

/-!
# What an evaluation reaches

An evaluation goes from point to point of the programs it runs: over a cell that
succeeds, or into the program of the entry a reference finds.  When it fails,
then because of the values it works on, because of a limit, because operands are
missing, or because it reaches a reference to something that is not of the kind,
arity or rank the reference is made for.
-/

/-- The signature a reference is made for. -/
def Cell.signature? : Cell → Option Signature
  | .variable _ => some .scalar
  | .lookup _ => some .curve
  | .call _ arity => some (.function arity)
  | .element _ rank => some (.array rank)
  | _ => none

theorem Cell.exists_signature?
    {cell : Cell}
    {name : String}
    (reference : cell.reference? = some name) :
    ∃ signature, cell.signature? = some signature := by
  cases cell with
  | literal | op => cases reference
  | «variable» | lookup | call | element => exact ⟨_, rfl⟩

namespace Eval

/-- A program that is being executed. -/
structure Point where
  /-- Levels left for the programs its references run. -/
  levels : Nat
  scopes : Scopes
  frame : Option Nat
  /-- The cells that are still to be executed. -/
  code : Code
  run : Run

namespace Point

/-- The point at which a program starts. -/
def start
    (levels : Nat)
    (scopes : Scopes)
    (frame : Option Nat)
    (code : Code)
    (run : Run) :
    Point :=
  ⟨levels, scopes, frame, code, { run with callDepth := run.callDepth + 1 }⟩

/--
A reference that is executed next finds an entry of the signature it is made
for.
-/
def Suited (config : Config) (point : Point) : Prop :=
  ∀ cell rest name, point.code = cell :: rest → cell.reference? = some name →
    ∃ entry, lookup? config point.scopes point.frame name = some entry ∧
      cell.signature? = some entry.signature

/-- Executing the rest of the program fails. -/
def Fails (config : Config) (point : Point) (fault : Fault) : Prop :=
  ∃ failure next,
    execCells config (runProgram config point.levels) point.scopes
      point.frame point.code
      point.run = .error failure next ∧ failure.fault = fault

end Point

/-- The program that a definition runs on its operands, at its start. -/
inductive Enters
    (levels : Nat)
    (scopes : Scopes) :
    Definition → Run → Point → Prop where
  | scalar
      (code : Code)
      (run : Run) :
      Enters levels scopes (.scalar code) run
        (.start levels scopes none code run)
  | array
      {grid : Grid}
      {run next : Run}
      {cells : List Cell}
      {indices : List Int64}
      {code : Code}
      (popped : popMany grid.rank run = .ok cells next)
      (read : cells.mapM Cell.index = .ok indices)
      (found : grid.element indices = .ok code) :
      Enters levels scopes (.array grid) run
        (.start levels scopes none code next)
  | function
      {params : List String}
      {body : Code}
      {run next : Run}
      {arguments : List Cell}
      (popped : popMany params.length run = .ok arguments next) :
      Enters levels scopes (.function params body) run
        (.start levels (scopes.push (Bindings.ofArguments params arguments))
          (some scopes.depth) body next)

theorem Enters.levels
    {levels : Nat}
    {scopes : Scopes}
    {definition : Definition}
    {run : Run}
    {inner : Point}
    (enters : Enters levels scopes definition run inner) :
    inner.levels = levels := by
  cases enters <;> rfl

/-- One step of an evaluation. -/
inductive Step (config : Config) : Point → Point → Prop where
  | past
      {levels : Nat}
      {scopes : Scopes}
      {frame : Option Nat}
      {cell : Cell}
      {rest : Code}
      {run ticked next : Run}
      (counted : tick config run = .ok () ticked)
      (executed :
        execCell config (runProgram config levels) scopes frame cell ticked =
          .ok () next) :
      Step config ⟨levels, scopes, frame, cell :: rest, run⟩
        ⟨levels, scopes, frame, rest, next⟩
  | into
      {levels : Nat}
      {scopes : Scopes}
      {frame : Option Nat}
      {cell : Cell}
      {rest : Code}
      {run ticked : Run}
      {name : String}
      {entry : Entry}
      {inner : Point}
      (counted : tick config run = .ok () ticked)
      (reference : cell.reference? = some name)
      (found : lookup? config scopes frame name = some entry)
      (usable : useFault? cell entry = none)
      (enters : Enters levels scopes entry.definition ticked inner) :
      Step config ⟨levels + 1, scopes, frame, cell :: rest, run⟩ inner

/-- Any number of steps. -/
def Reaches (config : Config) : Point → Point → Prop :=
  Relation.ReflTransGen (Step config)

end Eval

/--
A fault of the values a run works on, of a limit, or of operands that are
missing.
-/
def Fault.OfRun (fault : Fault) : Prop :=
  fault.OfValues ∨ fault.label = .stackUnderflow

namespace Eval

/-- An evaluation that fails, if it does, for what the run holds. -/
def FailsOfRun (action : Eval α) : Prop :=
  ∀ run failure next, action run = .error failure next → failure.fault.OfRun

namespace FailsOfRun

theorem bind
    {action : Eval α}
    {rest : α → Eval β}
    (first : FailsOfRun action)
    (second : ∀ a, FailsOfRun (rest a)) :
    FailsOfRun (action >>= rest) := by
  intro run failure last fails
  rcases bind_eq_error.mp fails with failsFirst | ⟨a, next, -, failsRest⟩
  · exact first run failure last failsFirst
  · exact second a next failure last failsRest

theorem ofExcept
    {result : Except Fault α}
    (only : Fault.Only Fault.OfValues result) :
    FailsOfRun (ofExcept result) := by
  intro run failure next fails
  cases result with
  | ok a => cases fails
  | error fault =>
      cases fails
      exact .inl (only fault rfl)

theorem push (cell : Cell) : FailsOfRun (push cell) := by
  intro run failure next fails
  cases fails

theorem pop : FailsOfRun pop := by
  intro run failure next fails
  obtain ⟨⟨cells⟩, steps, calls⟩ := run
  cases cells with
  | nil =>
      cases fails
      exact .inr rfl
  | cons cell rest => cases fails

theorem popMany (count : Nat) : FailsOfRun (popMany count) := by
  intro run failure next fails
  by_cases short : run.stack.depth < count
  · rw [popMany_of_short short] at fails
    cases fails
    exact .inr rfl
  · rw [popMany_of_enough short] at fails
    cases fails

theorem operate (op : Op) : FailsOfRun (operate op) := by
  by_cases single : op.arity = 1
  · simp only [Eval.operate, single, if_true]
    exact .bind .pop fun a =>
      .bind (.ofExcept (op.onlyOfValues_unary single a)) fun _ => .push _
  · have double : op.arity = 2 := by
      cases op <;> simp_all [Op.arity]
    simp only [Eval.operate, double]
    exact .bind .pop fun b => .bind .pop fun a =>
      .bind (.ofExcept (op.onlyOfValues_binaryResult double a b))
        fun _ => .push _

end FailsOfRun

/-- A result that is given, with the run as it was. -/
theorem of_ofExcept
    {result : Except Fault α}
    {run next : Run}
    {a : α}
    (succeeds : ofExcept result run = .ok a next) :
    result = .ok a ∧ next = run := by
  cases result with
  | ok b =>
      cases succeeds
      exact ⟨rfl, rfl⟩
  | error fault => cases succeeds

theorem length_of_popMany
    {count : Nat}
    {run next : Run}
    {cells : List Cell}
    (succeeds : popMany count run = .ok cells next) :
    cells.length = count := by
  by_cases short : run.stack.depth < count
  · rw [popMany_of_short short] at succeeds
    cases succeeds
  · rw [popMany_of_enough short] at succeeds
    cases succeeds
    rw [List.length_reverse, List.length_take]
    exact Nat.min_eq_left (Nat.not_lt.mp short)

/-- A program fails for want of levels or at its start. -/
theorem fails_of_runProgram
    {config : Config}
    {levels : Nat}
    {scopes : Scopes}
    {frame : Option Nat}
    {code : Code}
    {run next : Run}
    {failure : Failure}
    (fails :
      runProgram config levels scopes frame code run = .error failure next) :
    failure.fault.OfRun ∨
      ∃ fewer, levels = fewer + 1 ∧
        (Point.start fewer scopes frame code run).Fails config
          failure.fault := by
  cases levels with
  | zero =>
      cases fails
      exact .inl (.inl trivial)
  | succ fewer =>
      simp only [runProgram, nested] at fails
      split at fails
      · cases fails
      · rename_i cause later outcome
        cases fails
        exact .inr ⟨fewer, rfl, failure, later, outcome, rfl⟩

/-- An entry fails for what the run holds or inside the program it runs. -/
theorem fails_of_apply
    {config : Config}
    {levels : Nat}
    {scopes : Scopes}
    {entry : Entry}
    {run next : Run}
    {failure : Failure}
    (fails : apply config (runProgram config levels) scopes entry run =
      .error failure next) :
    failure.fault.OfRun ∨
      ∃ fewer inner,
        levels = fewer + 1 ∧ Enters fewer scopes entry.definition run inner ∧
        inner.Fails config failure.fault := by
  obtain ⟨name, definition⟩ := entry
  unfold apply inside at fails
  split at fails
  · cases fails
  rename_i cause later outcome
  cases fails
  simp only [Failure.inside]
  cases definition with
  | scalar code =>
      rcases fails_of_runProgram outcome with ofRun | ⟨fewer, rfl, failsInside⟩
      · exact .inl ofRun
      · exact .inr ⟨fewer, _, rfl, .scalar code run, failsInside⟩
  | array grid =>
      rcases bind_eq_error.mp outcome with
          short | ⟨cells, afterPop, popped, failsRead⟩
      · exact .inl (FailsOfRun.popMany grid.rank _ _ _ short)
      rcases bind_eq_error.mp failsRead with
          unread | ⟨indices, afterRead, read, failsFind⟩
      · exact .inl
          (FailsOfRun.ofExcept (Cell.onlyOfValues_indices cells) _ _ _ unread)
      obtain ⟨indicesRead, rfl⟩ := of_ofExcept read
      have ranked :=
        (Cell.length_indices indicesRead).trans (length_of_popMany popped)
      rcases bind_eq_error.mp failsFind with
          outside | ⟨code, afterFind, found, failsRun⟩
      · exact .inl (FailsOfRun.ofExcept (Grid.onlyOfValues_element name ranked)
          _ _ _ outside)
      obtain ⟨element, rfl⟩ := of_ofExcept found
      rcases fails_of_runProgram failsRun with ofRun | ⟨fewer, rfl, failsInside⟩
      · exact .inl ofRun
      · have inArray := except_mapError_eq_ok.mp element
        exact .inr
          ⟨fewer, _, rfl, .array popped indicesRead inArray, failsInside⟩
  | function params body =>
      rcases bind_eq_error.mp outcome with
          short | ⟨arguments, afterPop, popped, failsRun⟩
      · exact .inl (FailsOfRun.popMany params.length _ _ _ short)
      · rcases fails_of_runProgram failsRun with
            ofRun | ⟨fewer, rfl, failsInside⟩
        · exact .inl ofRun
        · exact .inr ⟨fewer, _, rfl, .function popped, failsInside⟩
  | curve curve =>
      refine .inl (FailsOfRun.bind .pop (fun cell => ?_) _ _ _ outcome)
      exact .bind (.ofExcept cell.onlyOfValues_number) fun x =>
        .bind (.ofExcept (curve.onlyOfValues_valueAt config.extrapolation x))
          fun y => .push _

/-- The entry that suits a reference may be used by it. -/
theorem useFault?_of_signature
    {cell : Cell}
    {entry : Entry}
    (suits : cell.signature? = some entry.signature) :
    useFault? cell entry = none := by
  obtain ⟨name, definition⟩ := entry
  cases cell <;> cases definition <;> cases suits <;>
    simp [useFault?, Entry.kind, Entry.arity?, Entry.grid?]

/-- A reference is resolved, and the entry is used or refused. -/
theorem execCell_of_reference
    {config : Config}
    {runner : Runner}
    {scopes : Scopes}
    {frame : Option Nat}
    {cell : Cell}
    {name : String}
    {entry : Entry}
    (reference : cell.reference? = some name)
    (found : lookup? config scopes frame name = some entry)
    (usable : useFault? cell entry = none) :
    execCell config runner scopes frame cell =
      apply config runner scopes entry := by
  rw [execCell_reference frame reference, resolve_eq, found]
  simp [usable]

/--
With so many levels left, failures are of the run or lead to a reference that
does not suit.
-/
def Located (config : Config) (levels : Nat) : Prop :=
  ∀ (scopes : Scopes) (frame : Option Nat) (code : Code) (run : Run)
    (fault : Fault),
    Point.Fails config ⟨levels, scopes, frame, code, run⟩ fault →
      fault.OfRun ∨
        ∃ later, Reaches config ⟨levels, scopes, frame, code, run⟩ later ∧
          ¬ later.Suited config

/-- Failures are located with some levels left when they are with fewer. -/
theorem Located.step
    {config : Config}
    {levels : Nat}
    (inner : ∀ fewer, levels = fewer + 1 → Located config fewer) :
    Located config levels := by
  intro scopes frame code run fault fails
  -- Over the cells of the program; a reference
  -- that suits fails in the program it enters.
  induction code generalizing run with
  | nil =>
      obtain ⟨failure, next, ended, -⟩ := fails
      cases ended
  | cons cell rest inductionHypothesis =>
      by_cases suited :
          Point.Suited config ⟨levels, scopes, frame, cell :: rest, run⟩
      · obtain ⟨failure, next, outcome, rfl⟩ := fails
        rcases bind_eq_error.mp outcome with
            limited | ⟨_, ticked, counted, outcome⟩
        · rw [tick_apply] at limited
          split at limited <;> cases limited
          exact .inl (.inl trivial)
        rcases bind_eq_error.mp outcome with
            failsHere | ⟨_, after, executed, failsLater⟩
        · cases referring : cell.reference? with
          | none =>
              cases cell with
              | literal value => cases failsHere
              | op operation =>
                  exact .inl (FailsOfRun.operate operation _ _ _ failsHere)
              | «variable» | lookup | call | element => cases referring
          | some name =>
              obtain ⟨entry, found, suits⟩ :=
                suited cell rest name rfl referring
              have usable := useFault?_of_signature suits
              rw [execCell_of_reference referring found usable] at failsHere
              rcases fails_of_apply failsHere with
                  ofRun | ⟨fewer, start, rfl, enters, failsInside⟩
              · exact .inl ofRun
              · obtain rfl := enters.levels
                rcases inner start.levels rfl _ _ _ _ _ failsInside with
                    ofRun | ⟨later, reached, unsuited⟩
                · exact .inl ofRun
                · refine .inr ⟨later, ?_, unsuited⟩
                  exact .head
                    (.into counted referring found usable enters) reached
        · rcases inductionHypothesis after ⟨failure, next, failsLater, rfl⟩ with
              ofRun | ⟨later, reached, unsuited⟩
          · exact .inl ofRun
          · exact .inr ⟨later, .head (.past counted executed) reached, unsuited⟩
      · exact .inr ⟨_, .refl, suited⟩

/--
Every failure is one of the run, or a reference that does not suit is reached.
-/
theorem located
    (config : Config)
    (levels : Nat) :
    Located config levels := by
  induction levels with
  | zero => exact .step nofun
  | succ levels inductionHypothesis =>
      refine .step fun fewer same => ?_
      obtain rfl := Nat.succ.inj same
      exact inductionHypothesis

end Eval

end Formulary
