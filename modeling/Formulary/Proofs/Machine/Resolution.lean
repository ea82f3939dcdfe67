import Formulary.Proofs.Eval.Resolved
import Formulary.Proofs.Machine.Discipline
import Formulary.Proofs.Machine.Invariant

namespace Formulary

open Stateful

/-!
# Compiled names resolve at run time

Names are checked when a source is compiled, against what is declared then;
they are resolved when a program runs, among what is bound by then.  No load
takes a name away, and every entry of a loaded machine refers to bound names, so
no evaluation of a loaded machine meets an unbound name or a missing operand.
-/

namespace Machine

theorem Loaded.wellFormed
    {machine : Machine}
    (loaded : machine.Loaded) :
    machine.WellFormed := by
  induction loaded with
  | start config => exact wellFormed_ofConfig config
  | load before succeeds inductionHypothesis =>
      exact inductionHypothesis.load succeeds

/-- The entries of a well-formed machine refer to each other. -/
theorem WellFormed.linked
    {machine : Machine}
    (wellFormed : machine.WellFormed) :
    machine.scopes.Linked where
  globals := fun entry member => (wellFormed.entries entry member).closed
  frames := by
    intro frame member
    rw [wellFormed.frames] at member
    cases member

/--
What is found on a well-formed machine is one of its entries, under its own
name.
-/
theorem WellFormed.mem_of_find?
    {machine : Machine}
    (wellFormed : machine.WellFormed)
    {name : String}
    {entry : Entry}
    (found : machine.find? name = some entry) :
    entry ∈ machine.entries ∧ entry.name = name := by
  have inGlobals : machine.scopes.globals.get? name = some entry := by
    simpa [find?, Scopes.find?, wellFormed.frames] using found
  exact Bindings.mem_of_get? inGlobals

/-- An expression refers to entries. -/
theorem WellFormed.mem_names_of_compile
    {machine : Machine}
    (wellFormed : machine.WellFormed)
    {source : String}
    {code : Code}
    (compiled : machine.compile source = .ok code) :
    ∀ cell ∈ code, ∀ name,
      cell.reference? = some name → name ∈ machine.names := by
  intro cell isCell name refers
  obtain ⟨parsed, expression⟩ := expr_of_compile compiled
  rcases Compile.known_of_expr expression isCell refers with declared | isParam
  · by_contra missing
    have described := Signatures.Describe.ofEntries wellFormed.distinct name
    rw [Bindings.get?_eq_none_iff.mpr missing] at described
    rw [Machine.entries, described] at declared
    cases declared
  · cases isParam

/--
An operation that fails on a machine, if it does, for ordinary reasons only.
-/
def OrderlyOn (machine : Machine) (action : Session α) : Prop :=
  ∀ failure next,
    action machine = .error (.runtime failure) next → failure.fault.Ordinary

namespace OrderlyOn

theorem pure
    (machine : Machine)
    (a : α) :
    machine.OrderlyOn (pure a : Session α) := by
  intro failure next fails
  cases fails

theorem fail
    (machine : Machine)
    {fault : Fault}
    (ordinary : fault.Ordinary) :
    machine.OrderlyOn (fail fault : Session α) := by
  intro failure next fails
  cases fails
  exact ordinary

/-- One operation after another. -/
theorem bind
    {machine : Machine}
    {action : Session α}
    {rest : α → Session β}
    (first : machine.OrderlyOn action)
    (second : ∀ a next, action machine = .ok a next → next.OrderlyOn (rest a)) :
    machine.OrderlyOn (action >>= rest) := by
  intro failure last fails
  rcases bind_eq_error.mp fails with failsFirst | ⟨a, next, succeeds, failsRest⟩
  · exact first failure last failsFirst
  · exact second a next succeeds failure last failsRest

theorem checkArity
    (machine : Machine)
    (name : String)
    (expected found : Nat) :
    machine.OrderlyOn (checkArity name expected found) := by
  unfold Machine.checkArity
  split
  · exact .pure machine ()
  · exact .fail machine (Fault.ordinary_type _)

end OrderlyOn

/-- A call whose arguments are counted goes on with the same machine. -/
theorem of_checkArity
    {name : String}
    {expected found : Nat}
    {machine next : Machine}
    (accepted : checkArity name expected found machine = .ok () next) :
    expected = found ∧ next = machine := by
  unfold checkArity at accepted
  split at accepted
  · rename_i counted
    cases accepted
    exact ⟨counted, rfl⟩
  · cases accepted

section Evaluations

variable
  {machine : Machine}
  (idle : machine.callDepth = 0)
  (checked : machine.scopes.Checked)
  (linked : machine.scopes.Linked)
  (config : Config)
  (stack : Stack)

include checked linked

omit linked in
/-- Evaluating a checked program fails where running it does. -/
theorem runTop_of_evaluateInside
    {code : Code}
    (accepted : Code.check code = .ok ())
    {context : Failure → Failure}
    {failure : Failure}
    {next : Machine}
    (fails :
      evaluateInside context code (machine.on config stack) =
        .error (.runtime failure) next) :
    ∃ cause run, failure = context cause ∧
      Eval.runTop config machine.scopes none code
        (Eval.above [] stack.cells 0 0) =
        .error cause run := by
  unfold evaluateInside evaluate at fails
  split at fails
  · cases fails
  · rename_i inner later failsInside
    cases fails
    simp only at failsInside
    split at failsInside
    · cases failsInside
    · rename_i cause run outcome
      cases failsInside
      rcases bind_eq_error.mp outcome with
          fromProgram | ⟨_, after, succeeds, fromResult⟩
      · exact ⟨inner, run, rfl, fromProgram⟩
      · -- A checked program that succeeds has left its one value.
        rcases Eval.runProgram_confines config config.maxCallDepth
          machine.scopes none code
            checked accepted stack.depth 0 0 [] rfl with
            ⟨results, one, steps, leaves⟩ | ⟨other, rubble, steps, failsToo⟩
        · obtain ⟨value, rfl⟩ := List.length_eq_one_iff.mp one
          have left := (leaves stack.cells rfl).symm.trans succeeds
          cases left
          cases fromResult
        · cases (failsToo stack.cells rfl).symm.trans succeeds

/-- Evaluating a program whose names resolve. -/
theorem orderlyOn_evaluateInside
    {code : Code}
    (accepted : Code.check code = .ok ())
    (resolves : Eval.Resolves config machine.scopes none code)
    {context : Failure → Failure}
    (sameFault : ∀ failure, (context failure).fault = failure.fault) :
    (machine.on config stack).OrderlyOn (evaluateInside context code) := by
  intro failure next fails
  obtain ⟨cause, run, rfl, fromProgram⟩ :=
    runTop_of_evaluateInside checked config stack accepted fails
  rw [sameFault]
  exact Eval.runProgram_orders config config.maxCallDepth machine.scopes
    none code checked
    linked accepted resolves [] stack.cells 0 0 rfl cause run fromProgram

omit checked linked in
/-- Running an entry on its operands fails where the entry does. -/
theorem apply_of_runEntry
    {entry : Entry}
    {operands : List Value}
    (counted : operands.length = entry.operandCount)
    {failure : Failure}
    {next : Machine}
    (fails :
      runEntry entry
        (machine.on config (stack.pushAll (Eval.literals operands))) =
        .error (.runtime failure) next) :
    ∃ run,
      Eval.apply config (Eval.runTop config) machine.scopes entry
        (Eval.above operands.reverse stack.cells 0 0) = .error failure run := by
  have enough :
      ¬ (stack.pushAll (Eval.literals operands)).depth <
        entry.operandCount := by
    simp only [Stack.pushAll, Stack.depth, List.length_append,
      List.length_reverse, Eval.length_literals]
    omega
  simp only [runEntry, bind_get, on, enough, if_false] at fails
  unfold execute at fails
  split at fails
  · cases fails
  · rename_i cause run outcome
    cases fails
    refine ⟨run, ?_⟩
    rw [Eval.above_reverse]
    exact outcome

/-- Running an entry on its operands. -/
theorem orderlyOn_runEntry
    {entry : Entry}
    (entryChecked : entry.Checked)
    (closed : entry.RefersTo (· ∈ machine.names))
    {operands : List Value}
    (counted : operands.length = entry.operandCount) :
    (machine.on config (stack.pushAll (Eval.literals operands))).OrderlyOn
      (runEntry entry) := by
  intro failure next fails
  obtain ⟨run, failsInside⟩ := apply_of_runEntry config stack counted fails
  have orderly :=
    Eval.orderly_apply (Eval.runProgram_orders config config.maxCallDepth)
      checked linked entryChecked closed
  exact orderly operands.reverse stack.cells 0 0 (by simpa using counted)
    failure run failsInside

include idle

omit linked in
/-- Taking the value of an entry fails where running it does. -/
theorem runEntry_of_valueOf
    {entry : Entry}
    (entryChecked : entry.Checked)
    {operands : List Value}
    (counted : operands.length = entry.operandCount)
    {error : Error}
    {next : Machine}
    (fails :
      valueOf entry
        (machine.on config (stack.pushAll (Eval.literals operands))) =
        .error error next) :
    runEntry entry
      (machine.on config (stack.pushAll (Eval.literals operands))) =
      .error error next := by
  rcases bind_eq_error.mp fails with
      failsInside | ⟨_, later, succeeds, failsTaking⟩
  · exact failsInside
  · -- An entry that succeeds leaves the one value that is taken.
    rcases leavesOne_runEntry idle config stack.depth checked
      entryChecked counted with
        ⟨value, leaves⟩ | ⟨other, failsInstead⟩
    · cases (leaves stack rfl).symm.trans succeeds
      cases failsTaking
    · cases (failsInstead stack rfl).symm.trans succeeds

/-- Pushing the operands of an entry, running it and taking its value. -/
theorem orderlyOn_valueOf
    {entry : Entry}
    (entryChecked : entry.Checked)
    (closed : entry.RefersTo (· ∈ machine.names))
    {operands : List Value}
    (counted : operands.length = entry.operandCount) :
    (machine.on config (stack.pushAll (Eval.literals operands))).OrderlyOn
      (valueOf entry) := by
  intro failure next fails
  have failsInside :=
    runEntry_of_valueOf idle checked config stack entryChecked counted fails
  exact orderlyOn_runEntry checked linked config stack entryChecked closed
    counted failure next failsInside

end Evaluations

section Operations

variable
  {machine : Machine}
  (wellFormed : machine.WellFormed)
  (checked : machine.scopes.Checked)
  (config : Config)
  (stack : Stack)

include wellFormed checked

theorem orderlyOn_scalar
    {entry : Entry}
    (member : entry ∈ machine.entries)
    (missing : Missing) :
    (machine.on config stack).OrderlyOn (scalar entry.name missing) := by
  have found : (machine.on config stack).find? entry.name = some entry :=
    wellFormed.found entry member
  have closed := (wellFormed.entries entry member).closed
  intro failure next fails
  simp only [scalar, bind_get, found] at fails
  split at fails
  · rename_i isScalar
    have counted : ([] : List Value).length = entry.operandCount :=
      (Entry.operandCount_of_isScalar isScalar).symm
    have value :=
      orderlyOn_valueOf wellFormed.idle checked wellFormed.linked config stack
        (checked.globals entry member) closed counted
    exact value.bind (fun _ next _ => .pure next _) failure next fails
  · cases fails
    exact Fault.ordinary_type _

theorem orderlyOn_element
    {entry : Entry}
    (member : entry ∈ machine.entries)
    (indices : List Int64) :
    (machine.on config stack).OrderlyOn (element entry indices) := by
  have closed := (wellFormed.entries entry member).closed
  unfold element
  cases isArray : entry.grid? with
  | none => exact .fail _ (Fault.ordinary_type _)
  | some grid =>
      simp only
      split
      · rename_i ranked
        have counted : (indices.map Value.int).length = entry.operandCount := by
          rw [Entry.operandCount_of_grid? isArray, List.length_map, ranked]
        rw [Eval.literals_ints]
        intro failure next fails
        exact orderlyOn_valueOf wellFormed.idle checked
          wellFormed.linked config stack
          (checked.globals entry member) closed counted failure next fails
      · exact .fail _ (Fault.ordinary_index _ _)

theorem orderlyOn_call
    {name : String}
    (known : name ∈ machine.names ∨ (Builtin.ofName? name).isSome)
    (arguments : List Value) :
    (machine.on config stack).OrderlyOn (call name arguments) := by
  unfold call
  cases builtin? : Builtin.ofName? name with
  | some builtin =>
      refine OrderlyOn.bind (.checkArity _ _ _ _) fun _ next accepted => ?_
      obtain ⟨counted, rfl⟩ := of_checkArity accepted
      refine orderlyOn_evaluateInside checked wellFormed.linked config stack
        (check_builtinCall counted) ?_ fun _ => rfl
      intro cell isCell reference refers
      rcases List.mem_append.mp isCell with isArgument | isOperation
      · obtain ⟨value, -, rfl⟩ := List.mem_map.mp isArgument
        cases refers
      · obtain rfl := List.mem_singleton.mp isOperation
        cases refers
  | none =>
      have bound : name ∈ machine.names := by simpa [builtin?] using known
      obtain ⟨entry, member, rfl⟩ := List.mem_map.mp bound
      have found : (machine.on config stack).find? entry.name = some entry :=
        wellFormed.found entry member
      have closed := (wellFormed.entries entry member).closed
      intro failure next fails
      simp only [bind_get, found] at fails
      cases callable : entry.arity? with
      | none =>
          simp only [callable] at fails
          cases fails
          exact Fault.ordinary_type _
      | some arity =>
          simp only [callable] at fails
          refine OrderlyOn.bind (.checkArity _ _ _ _)
            (fun _ next accepted => ?_) failure next fails
          obtain ⟨same, rfl⟩ := of_checkArity accepted
          have counted : arguments.length = entry.operandCount :=
            same.symm.trans (Entry.operandCount_of_arity? callable).symm
          intro failure next fails
          exact orderlyOn_valueOf wellFormed.idle checked
            wellFormed.linked config stack
            (checked.globals entry member) closed counted failure next fails

theorem orderlyOn_eval (source : String) :
    (machine.on config stack).OrderlyOn (eval source) := by
  intro failure next fails
  cases compiled : machine.compile source with
  | error error =>
      have same : (machine.on config stack).compile source = .error error :=
        compiled
      simp only [eval, bind_get, same] at fails
      cases fails
  | ok code =>
      have same : (machine.on config stack).compile source = .ok code :=
        compiled
      simp only [eval, bind_get, same] at fails
      refine orderlyOn_evaluateInside checked wellFormed.linked config stack
        (check_of_compile compiled) ?_ (fun _ => rfl) failure next fails
      intro cell isCell name refers
      exact Eval.isSome_lookup?_of_global config none
        (wellFormed.mem_names_of_compile compiled cell isCell name refers)

end Operations

/--
Names that are checked when they are compiled resolve when they are evaluated.
On every machine reached by successful loads, under all settings and on every
stack, reading a scalar, an element or the result of a call of an entry, and
evaluating an expression, fail neither because a name is unbound nor because an
operand is missing.
-/
theorem compiled_names_resolve
    {machine : Machine}
    (loaded : machine.Loaded)
    (config : Config)
    (stack : Stack) :
    (∀ entry ∈ machine.entries,
      (∀ missing,
        (machine.on config stack).OrderlyOn (scalar entry.name missing)) ∧
      (∀ indices, (machine.on config stack).OrderlyOn (element entry indices)) ∧
      (∀ arguments,
        (machine.on config stack).OrderlyOn (call entry.name arguments)) ∧
      ∀ operands : List Value, operands.length = entry.operandCount →
        (machine.on config (stack.pushAll (Eval.literals operands))).OrderlyOn
          (runEntry entry)) ∧
    (∀ name arguments, (Builtin.ofName? name).isSome →
      (machine.on config stack).OrderlyOn (call name arguments)) ∧
    ∀ source, (machine.on config stack).OrderlyOn (eval source) := by
  have wellFormed := loaded.wellFormed
  have checked := loaded.checked
  refine ⟨?_, ?_, ?_⟩
  · intro entry member
    refine ⟨?_, ?_, ?_, ?_⟩
    · exact orderlyOn_scalar wellFormed checked config stack member
    · exact orderlyOn_element wellFormed checked config stack member
    · exact orderlyOn_call wellFormed checked config stack
        (.inl (List.mem_map_of_mem member))
    · intro operands counted
      exact orderlyOn_runEntry checked wellFormed.linked config stack
        (checked.globals entry member)
        (wellFormed.entries entry member).closed counted
  · intro name arguments isBuiltin
    exact orderlyOn_call wellFormed checked config stack
      (.inr isBuiltin) arguments
  · exact orderlyOn_eval wellFormed checked config stack

/-- A machine with default settings that holds some entries. -/
def holding (entries : List Entry) : Machine :=
  { ofConfig {} with scopes := ⟨⟨entries⟩, []⟩ }

/--
A call of a function that has become a scalar fails, but not because a name is
unbound.
-/
theorem compiled_names_resolve_redeclared :
    ∃ machine : Machine, machine.Loaded ∧
      machine.entries =
        [⟨"f", .scalar [.literal (.int 1)]⟩,
          ⟨"y", .scalar [.literal (.int 3), .call "f" 1]⟩] ∧
      (∃ next, scalar "y" .abort machine =
        .error (.runtime ⟨.type (.wrongUse .scalar "f" .called), ["y"]⟩) next) ∧
      machine.OrderlyOn (scalar "y" .abort) := by
  have declares :
      load .replace "" "f(x) = x; y = f(3);" (ofConfig {}) =
        .ok () (holding [⟨"f", .function ["x"] [.variable "x"]⟩,
          ⟨"y", .scalar [.literal (.int 3), .call "f" 1]⟩]) := by
    decide +kernel
  have redeclares :
      load .extend "" "f = 1;"
          (holding [⟨"f", .function ["x"] [.variable "x"]⟩,
            ⟨"y", .scalar [.literal (.int 3), .call "f" 1]⟩]) =
        .ok () (holding [⟨"f", .scalar [.literal (.int 1)]⟩,
          ⟨"y", .scalar [.literal (.int 3), .call "f" 1]⟩]) := by
    decide +kernel
  have loaded := ((Loaded.start {}).load declares).load redeclares
  refine ⟨_, loaded, rfl, ⟨_, rfl⟩, ?_⟩
  have orderly :=
    (compiled_names_resolve loaded {} Stack.empty).1
      ⟨"y", .scalar [.literal (.int 3), .call "f" 1]⟩ (by decide)
  exact orderly.1 .abort

end Machine

end Formulary
