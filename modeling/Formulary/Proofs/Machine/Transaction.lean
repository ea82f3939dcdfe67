import Formulary.Proofs.Eval.Transaction
import Formulary.Proofs.Machine.Resolution
import Formulary.Proofs.Machine.RoundTrip

namespace Formulary

open Stateful

/-!
# Running an entry as a transaction

Running an entry on operands that lie on the stack replaces them by one value,
or drops them and fails, and leaves the cells below as they were, unless some
program that is entered does not pass its check.  Programs that are loaded do;
an argument that is itself an operation does not, nor need the programs of a
snapshot.
-/

namespace Machine

theorem exists_of_restore
    {config : Config}
    {bytes : List UInt8}
    {machine : Machine}
    (succeeds : restore config bytes = .ok machine) :
    ∃ entries, machine =
      { ofConfig config with scopes := ⟨Bindings.ofEntries entries, []⟩ } := by
  unfold restore at succeeds
  split at succeeds
  · rename_i entries rest reads
    cases succeeds
    exact ⟨entries, rfl⟩
  · cases succeeds

namespace Built

/-- No function is active between operations. -/
theorem frames
    {machine : Machine}
    (built : machine.Built) :
    machine.scopes.frames = [] := by
  induction built with
  | start config => rfl
  | @load mode file source machine next before succeeds inductionHypothesis =>
      obtain ⟨program, signatures, -, loadedFrom⟩ := loadedFrom_of_load succeeds
      rw [loadedFrom.frames]
      cases mode with
      | replace => rfl
      | extend => exact inductionHypothesis
  | restore succeeds =>
      obtain ⟨entries, rfl⟩ := exists_of_restore succeeds
      rfl

/-- No program is being executed between operations. -/
theorem callDepth
    {machine : Machine}
    (built : machine.Built) :
    machine.callDepth = 0 := by
  induction built with
  | start config => rfl
  | load before succeeds inductionHypothesis =>
      obtain ⟨program, signatures, -, loadedFrom⟩ := loadedFrom_of_load succeeds
      rw [loadedFrom.callDepth, inductionHypothesis]
  | restore succeeds =>
      obtain ⟨entries, rfl⟩ := exists_of_restore succeeds
      rfl

end Built

/--
Running an entry replaces the operands, given in the order in which they were
pushed, by one value, or it fails and drops them; the cells below stay.
-/
def Transacts
    (machine : Machine)
    (config : Config)
    (entry : Entry)
    (operands : List Cell)
    (low : Stack) : Prop :=
  (∃ value, runEntry entry (machine.on config (low.pushAll operands)) =
      .ok () (machine.on config (low.push (.literal value)))) ∨
    ∃ error, runEntry entry (machine.on config (low.pushAll operands)) =
      .error error (machine.on config low)

/-- Running an entry enters a program that does not leave exactly one value. -/
def RunsUnchecked
    (machine : Machine)
    (config : Config)
    (entry : Entry)
    (operands : List Cell)
    (low : Stack) : Prop :=
  ∃ levels inner, config.maxCallDepth = levels + 1 ∧
    Eval.Enters levels machine.scopes entry.definition
      ⟨low.pushAll operands, 0, 0⟩ inner ∧
      Eval.EntersUnchecked config inner

/-- An evaluation that settles is a transaction. -/
theorem transacts_of_settles
    {machine : Machine}
    (idle : machine.callDepth = 0)
    {config : Config}
    {entry : Entry}
    {operands : List Cell}
    (counted : operands.length = entry.operandCount)
    {low : Stack}
    (settles :
      Eval.Settles low.cells 0 1
        (Eval.apply config (Eval.runTop config) machine.scopes entry
          ⟨low.pushAll operands, 0, 0⟩)) :
    machine.Transacts config entry operands low := by
  have height : (low.pushAll operands).depth = operands.length + low.depth := by
    simp [Stack.pushAll, Stack.depth]
  have started :
      runEntry entry (machine.on config (low.pushAll operands)) =
        execute (Eval.apply config (Eval.runTop config) machine.scopes entry)
          low.depth (machine.on config (low.pushAll operands)) := by
    simp only [runEntry, bind_get, on, height, counted]
    rw [if_neg (by omega), Nat.add_sub_cancel_left]
  unfold Transacts
  rw [started]
  simp only [execute, fresh, on]
  generalize Eval.apply config (Eval.runTop config) machine.scopes entry
    ⟨low.pushAll operands, 0, 0⟩ = outcome at settles
  cases settles with
  | values results later one =>
      obtain ⟨value, rfl⟩ := List.length_eq_one_iff.mp one
      exact .inl ⟨value,
        congrArg (EStateM.Result.ok ()) (after_on idle config _ _ later)⟩
  | failure failure rubble later =>
      refine .inr ⟨.runtime failure,
        congrArg (EStateM.Result.error (Error.runtime failure)) ?_⟩
      have cut :=
        after_on idle config (low.pushAll operands) ⟨rubble ++ low.cells⟩ later
      simp only [on] at cut
      rw [cut]
      simp only [truncate, Stack.truncate_append]

/--
On every machine built by loads and from snapshots, under all settings, running
an entry on any cells above any others is a transaction, or enters a program
that does not pass its check.  It is a transaction when the machine is loaded,
or all its programs pass their check, and no argument of a function takes a
value from the stack.
-/
theorem run_is_transaction
    {machine : Machine}
    (built : machine.Built)
    (config : Config)
    {entry : Entry}
    (member : entry ∈ machine.entries)
    {operands : List Cell}
    (counted : operands.length = entry.operandCount)
    (low : Stack) :
    (machine.Transacts config entry operands low ∨
      machine.RunsUnchecked config entry operands low) ∧
    ((machine.Loaded ∨ ∀ other ∈ machine.entries, other.Checked) →
      (entry.kind = .function → ∀ cell ∈ operands, cell.pops = 0) →
        machine.Transacts config entry operands low) := by
  have reversed : operands.reverse.length = entry.operandCount := by
    rw [List.length_reverse, counted]
  constructor
  · rcases Eval.settles_apply (Eval.governed config config.maxCallDepth)
      machine.scopes entry
        reversed low.cells 0 0 with
          settles | ⟨levels, inner, left, enters, unchecked⟩
    · exact .inl (transacts_of_settles built.callDepth counted settles)
    · exact .inr ⟨levels, inner, left, enters, unchecked⟩
  · intro programs takeNothing
    have checked : machine.scopes.Checked := by
      rcases programs with loaded | globals
      · exact loaded.checked
      · exact ⟨globals, by simp [built.frames]⟩
    refine transacts_of_settles built.callDepth counted ?_
    refine Eval.settles_of_checked config _ checked
      (checked.globals entry member) reversed ?_ low.cells 0 0
    exact fun isFunction cell isOperand =>
      takeNothing isFunction cell (List.mem_reverse.mp isOperand)

/--
A function of a loaded machine leaves the operator below its argument alone.
-/
theorem run_is_transaction_operator :
    ∃ (machine : Machine) (entry : Entry),
      load .replace "" "f(x) = x;" (ofConfig {}) = .ok () machine ∧
        machine.find? "f" = some entry ∧
          machine.Transacts {} entry [.literal (.int 7)]
            ⟨[.op (.binary .add), .variable "y"]⟩ := by
  have loads :
      load .replace "" "f(x) = x;" (ofConfig {}) =
        .ok () (holding [⟨"f", .function ["x"] [.variable "x"]⟩]) := by
    decide +kernel
  have counted :
      [Cell.literal (.int 7)].length =
        (Entry.mk "f" (.function ["x"] [.variable "x"])).operandCount :=
    rfl
  have transaction :=
    run_is_transaction (Built.load (.start {}) loads) {}
      List.mem_cons_self counted ⟨[.op (.binary .add), .variable "y"]⟩
  refine ⟨_, _, loads, rfl, ?_⟩
  refine transaction.2 (.inl ((Loaded.start {}).load loads))
    fun _ cell isOperand => ?_
  obtain rfl := List.mem_singleton.mp isOperand
  rfl

/--
An operator that is bound to a parameter takes the cells below the argument,
whether the run succeeds afterwards or fails.
-/
theorem operator_argument_takes_cells :
    ∃ (machine : Machine) (f g : Entry),
      load .replace "" "f(x) = x; g(x) = x + (1 / 0);" (ofConfig {}) =
        .ok () machine ∧
        machine.find? "f" = some f ∧ f.operandCount = 1 ∧
        machine.find? "g" = some g ∧ g.operandCount = 1 ∧
        runEntry f (machine.on {}
          ⟨[.op (.binary .add), .literal (.int 20), .literal (.int 10)]⟩) =
          .ok () (machine.on {} ⟨[.literal (.int 30)]⟩) ∧
        runEntry g (machine.on {}
          ⟨[.op (.binary .add), .literal (.int 20), .literal (.int 10)]⟩) =
          .error (.runtime ⟨.arithmetic .divisionByZero, ["g"]⟩)
            (machine.on {} ⟨[.literal (.int 30)]⟩) ∧
        ¬ machine.Transacts {} f [.op (.binary .add)]
            ⟨[.literal (.int 20), .literal (.int 10)]⟩ ∧
        ¬ machine.Transacts {} g [.op (.binary .add)]
            ⟨[.literal (.int 20), .literal (.int 10)]⟩ := by
  have runs : ∃ machine f g,
      load .replace "" "f(x) = x; g(x) = x + (1 / 0);" (ofConfig {}) =
        .ok () machine ∧
        machine.find? "f" = some f ∧ f.operandCount = 1 ∧
        machine.find? "g" = some g ∧ g.operandCount = 1 ∧
        runEntry f (machine.on {}
          ⟨[.op (.binary .add), .literal (.int 20), .literal (.int 10)]⟩) =
          .ok () (machine.on {} ⟨[.literal (.int 30)]⟩) ∧
        runEntry g (machine.on {}
          ⟨[.op (.binary .add), .literal (.int 20), .literal (.int 10)]⟩) =
          .error (.runtime ⟨.arithmetic .divisionByZero, ["g"]⟩)
            (machine.on {} ⟨[.literal (.int 30)]⟩) := by
    refine ⟨holding [
        ⟨"f", .function ["x"] [.variable "x"]⟩,
        ⟨"g", .function ["x"]
          [.variable "x", .literal (.int 1), .literal (.int 0),
            .op (.binary .div), .op (.binary .add)]⟩],
      _, _, ?_, rfl, rfl, rfl, rfl, ?_, ?_⟩
    · decide +kernel
    · decide +kernel
    · decide +kernel
  obtain ⟨machine, f, g, loads, findsF, countF, findsG, countG, succeeds,
      fails⟩ := runs
  refine ⟨machine, f, g, loads, findsF, countF, findsG, countG, succeeds, fails,
    ?_, ?_⟩
  · -- One cell is left, and not three.
    rintro (⟨value, succeedsToo⟩ | ⟨error, failsToo⟩)
    · injection succeeds.symm.trans succeedsToo with _ same
      cases congrArg (fun machine => machine.stack.depth) same
    · cases succeeds.symm.trans failsToo
  · -- One cell is left, and not two.
    rintro (⟨value, succeedsToo⟩ | ⟨error, failsToo⟩)
    · cases fails.symm.trans succeedsToo
    · injection fails.symm.trans failsToo with _ same
      cases congrArg (fun machine => machine.stack.depth) same

end Machine

end Formulary
