import Formulary.Proofs.Eval.Chain
import Formulary.Proofs.Machine.Given

namespace Formulary

/-!
# Call stacks of failed questions

A question about an entry of a loaded machine that has the operands it needs is
answered by applying the entry, so when it fails the call stack tells the chain
of entries from this one to the one that fails itself.
-/

namespace Machine

/-- An entry applied to operands on a machine that is asked for it. -/
def activation
    (machine : Machine)
    (config : Config)
    (stack : Stack)
    (entry : Entry)
    (operands : List Value) :
    Eval.Activation :=
  ⟨config.maxCallDepth, machine.scopes, entry,
    ⟨stack.pushAll (Eval.literals operands), 0, 0⟩⟩

/-- Taking the value of a checked entry fails where the entry does. -/
theorem outcome_of_given_valueOf
    {machine : Machine}
    (checked : machine.scopes.Checked)
    (config : Config)
    (stack : Stack)
    {entry : Entry}
    (entryChecked : entry.Checked)
    {operands : List Value}
    (counted : operands.length = entry.operandCount)
    {error : Error}
    (fails :
      given (valueOf entry
        (machine.on config (stack.pushAll (Eval.literals operands)))) =
        .error error) :
    ∃ failure next, error = .runtime failure ∧
      (machine.activation config stack entry operands).outcome config =
        .error failure next := by
  have applied :
      (machine.activation config stack entry operands).outcome config =
        Eval.apply config (Eval.runTop config) machine.scopes entry
          (Eval.above operands.reverse stack.cells 0 0) := by
    rw [Eval.above_reverse]
    rfl
  have confined :
      Eval.Confined entry.operandCount 1
        (Eval.apply config (Eval.runTop config) machine.scopes entry) :=
    Eval.confined_apply (Eval.runProgram_confines config config.maxCallDepth)
      checked entryChecked
  rw [given_valueOf config stack counted, ← Eval.above_reverse] at fails
  rcases confined stack.depth 0 0 operands.reverse (by simpa using counted) with
      ⟨results, one, later, succeeds⟩ | ⟨failure, rubble, later, failsInside⟩
  · -- The entry has left its one value, which can be taken.
    obtain ⟨value, rfl⟩ := List.length_eq_one_iff.mp one
    rw [succeeds stack.cells rfl] at fails
    cases fails
  · rw [failsInside stack.cells rfl] at fails
    cases fails
    exact ⟨failure, _, rfl, applied.trans (failsInside stack.cells rfl)⟩

/--
The call stack is the chain of evaluation.  When a question about an entry of a
loaded machine fails while the entry is being evaluated, under any settings and
on any stack, the call stack names activations that begin with the entry: each
next entry is the one that a reference finds at the cell that the program of the
entry before it has come to, and the last one fails itself.  It has no more
names than one for each level and one for the entry.
-/
theorem call_stack_is_chain_of_evaluation
    {machine : Machine}
    (loaded : machine.Loaded)
    (config : Config)
    (stack : Stack)
    {entry : Entry}
    (member : entry ∈ machine.entries)
    {query : Query}
    {operands : List Value}
    (applies : query.Applies entry operands)
    {error : Error}
    (fails : (query.ask (machine.on config stack)).1 = .error error) :
    ∃ failure chain, error = .runtime failure ∧
      (machine.activation config stack entry operands).LeadsTo config
        failure chain ∧
      failure.callStack.head? = some entry.name ∧
      failure.callStack.length ≤ config.maxCallDepth + 1 := by
  have valueFails :
      given (valueOf entry
        (machine.on config (stack.pushAll (Eval.literals operands)))) =
        .error error := by
    rw [applies.ask_eq loaded member config stack] at fails
    cases outcome :
        given (valueOf entry
          (machine.on config (stack.pushAll (Eval.literals operands)))) with
    | ok value =>
        rw [outcome] at fails
        cases fails
    | error other =>
        rw [outcome] at fails
        cases fails
        rfl
  obtain ⟨failure, next, rfl, failsInside⟩ :=
    outcome_of_given_valueOf loaded.checked config stack
      (loaded.checked.globals entry member) applies.counted valueFails
  obtain ⟨chain, leads⟩ := Eval.exists_chain_of_outcome failsInside
  refine ⟨failure, chain, rfl, leads, ?_, ?_⟩
  · rw [leads.named, List.head?_map, leads.starts]
    rfl
  · rw [leads.named, List.length_map]
    exact leads.bounded

/--
A scalar that calls a function with an element of an array, by which it divides.
-/
def dividing : Machine :=
  holding
    [⟨"a", .array ⟨[2], #[[.literal (.int 0)], [.literal (.int 1)]]⟩⟩,
      ⟨"f", .function ["x"]
        [.literal (.int 1), .variable "x", .op (.binary .div)]⟩,
      ⟨"y", .scalar [.literal (.int 2), .literal (.int 0), .element "a" 1,
        .call "f" 1, .op (.binary .add)]⟩]

/--
Neither the array nor the parameter is on the call stack, since they have been
evaluated.
-/
theorem call_stack_is_chain_of_evaluation_division :
    dividing.Loaded ∧ ∃ entry ∈ dividing.entries,
      Query.Applies entry (.scalar "y" .abort) [] ∧
      ((Query.scalar "y" .abort).ask (dividing.on {} .empty)).1 =
        .error (.runtime ⟨.arithmetic .divisionByZero, ["y", "f"]⟩) ∧
      ∃ chain, (dividing.activation {} .empty entry []).LeadsTo {}
        ⟨.arithmetic .divisionByZero, ["y", "f"]⟩ chain := by
  have loads :
      load .replace "" "a[2] = {0, 1}; f(x) = 1 / x; y = 2 + f(a[0]);"
        (ofConfig {}) =
        .ok () dividing := by
    decide +kernel
  have loaded : dividing.Loaded := (Loaded.start {}).load loads
  obtain ⟨entry, member, applies⟩ :
      ∃ entry ∈ dividing.entries, Query.Applies entry (.scalar "y" .abort) [] :=
    ⟨_, List.mem_of_getElem? (i := 2) rfl, .scalar .abort rfl⟩
  have fails :
      ((Query.scalar "y" .abort).ask (dividing.on {} .empty)).1 =
        .error (.runtime ⟨.arithmetic .divisionByZero, ["y", "f"]⟩) := by
    decide +kernel
  obtain ⟨failure, chain, same, leads, -, -⟩ :=
    call_stack_is_chain_of_evaluation loaded {} .empty member applies fails
  cases same
  exact ⟨loaded, entry, member, applies, fails, chain, leads⟩

end Machine

end Formulary
