import Formulary.Proofs.Load.Loaded

namespace Formulary

open Stateful

/-!
# What evaluation does to the stack of a machine

Evaluating an entry replaces its operands by one value, or drops them; running
a program pushes one value, or nothing; evaluating an expression and calling by
name leave the stack as it was.  The result does not depend on the cells below,
but only on how many there are.
-/

namespace Eval

/-- Values on top of some cells, as the cells that were pushed. -/
theorem above_reverse
    (values : List Value)
    (low : Stack)
    (steps calls : Nat) :
    above values.reverse low.cells steps calls =
      ⟨low.pushAll (literals values), steps, calls⟩ := by
  simp [above, Stack.pushAll, literals_reverse]

end Eval

/-- Cutting a stack back to what lies below drops what lies above. -/
theorem Stack.truncate_append
    (above : List Cell)
    (low : Stack) :
    (⟨above ++ low.cells⟩ : Stack).truncate low.depth = low := by
  simp [truncate, depth]

theorem Stack.truncate_self
    (stack : Stack) :
    stack.truncate stack.depth = stack :=
  truncate_append [] stack

namespace Machine

/-- A machine with other settings and another stack. -/
def on (machine : Machine) (config : Config) (stack : Stack) : Machine :=
  { machine with config := config, stack := stack }

/--
Of the operands on a stack of a given depth, an operation leaves exactly one
value, or it fails and leaves none of them.  It does the same on every stack of
that depth.
-/
def LeavesOne
    (machine : Machine)
    (config : Config)
    (depth : Nat)
    (operands : List Value)
    (action : Session Unit) : Prop :=
  (∃ value, ∀ low : Stack, low.depth = depth →
    action (machine.on config (low.pushAll (Eval.literals operands))) =
      .ok () (machine.on config (low.push (.literal value)))) ∨
  ∃ error, ∀ low : Stack, low.depth = depth →
    action (machine.on config (low.pushAll (Eval.literals operands))) =
      .error error (machine.on config low)

/--
An operation gives a value or fails, and leaves the stack as it was.  It does
the same on every stack of a given depth.
-/
def LeavesNothing
    (machine : Machine)
    (config : Config)
    (depth : Nat)
    (action : Session Value) : Prop :=
  (∃ value, ∀ stack : Stack, stack.depth = depth →
    action (machine.on config stack) = .ok value (machine.on config stack)) ∨
  ∃ error, ∀ stack : Stack, stack.depth = depth →
    action (machine.on config stack) = .error error (machine.on config stack)

section Discipline

variable
  {machine : Machine}
  (idle : machine.callDepth = 0)
  (config : Config)
  (depth : Nat)

include idle

/-- The machine after an evaluation that leaves no program running. -/
theorem after_on
    (stack next : Stack)
    (steps : Nat) :
    (machine.on config stack).after ⟨next, steps, 0⟩ =
      machine.on config next := by
  simp [after, on, idle]

/-- A confined evaluation leaves one value of its operands. -/
theorem leavesOne_of_confined
    {operands : List Value}
    {action : Eval Unit}
    (confined : Eval.Confined operands.length 1 action) :
    machine.LeavesOne config depth operands (execute action depth) := by
  rcases confined depth 0 0 operands.reverse (by simp) with
      ⟨results, one, later, succeeds⟩ | ⟨failure, rubble, later, fails⟩
  · obtain ⟨value, rfl⟩ := List.length_eq_one_iff.mp one
    refine .inl ⟨value, fun low lowDepth => ?_⟩
    have outcome := succeeds low.cells lowDepth
    rw [Eval.above_reverse] at outcome
    simp only [execute, fresh, on, outcome]
    exact congrArg (EStateM.Result.ok ()) (after_on idle config _ _ later)
  · refine .inr ⟨.runtime failure, fun low lowDepth => ?_⟩
    have outcome := fails low.cells lowDepth
    rw [Eval.above_reverse] at outcome
    simp only [execute, fresh, on, outcome]
    refine congrArg (EStateM.Result.error (Error.runtime failure)) ?_
    rw [← lowDepth]
    have cut := after_on idle config (low.pushAll (Eval.literals operands))
      ⟨rubble ++ low.cells⟩ later
    simp only [on] at cut ⊢
    rw [cut]
    simp only [truncate, Stack.truncate_append]

/-- Evaluating a checked program gives its value and leaves nothing. -/
theorem leavesNothing_evaluateInside
    (checked : machine.scopes.Checked)
    {code : Code}
    (accepted : Code.check code = .ok ())
    (context : Failure → Failure) :
    machine.LeavesNothing config depth (evaluateInside context code) := by
  have confined :
      Eval.Confined 0 1 (Eval.runTop config machine.scopes none code) :=
    Eval.runProgram_confines config config.maxCallDepth machine.scopes none code
      checked accepted
  rcases confined depth 0 0 [] rfl with
      ⟨results, one, later, succeeds⟩ | ⟨failure, rubble, later, fails⟩
  · obtain ⟨value, rfl⟩ := List.length_eq_one_iff.mp one
    refine .inl ⟨value, fun stack stackDepth => ?_⟩
    have outcome := succeeds stack.cells stackDepth
    have taken :
        (do
          Eval.runTop config machine.scopes none code
          let cell ← Eval.pop
          Eval.ofExcept cell.result : Eval Value) ⟨stack, 0, 0⟩ =
            .ok value ⟨stack, later, 0⟩ := by
      exact (bind_of_ok outcome).trans rfl
    have cut := after_on idle config stack stack later
    simp only [on] at cut
    simp only [evaluateInside, evaluate, fresh, on, taken, cut]
    simp only [truncate, Stack.truncate_self]
  · refine .inr ⟨.runtime (context failure), fun stack stackDepth => ?_⟩
    have outcome := fails stack.cells stackDepth
    have failed :
        (do
          Eval.runTop config machine.scopes none code
          let cell ← Eval.pop
          Eval.ofExcept cell.result : Eval Value) ⟨stack, 0, 0⟩ =
          .error failure ⟨⟨rubble ++ stack.cells⟩, later, 0⟩ :=
      bind_of_error outcome
    have cut := after_on idle config stack ⟨rubble ++ stack.cells⟩ later
    simp only [on] at cut
    simp only [evaluateInside, evaluate, fresh, on, failed, cut]
    simp only [truncate, Stack.truncate_append]

omit idle in
/-- A refusal leaves everything as it was. -/
theorem leavesNothing_of_error
    {action : Session Value}
    (error : Error)
    (fails :
      ∀ stack, action (machine.on config stack) =
        .error error (machine.on config stack)) :
    machine.LeavesNothing config depth action :=
  .inr ⟨error, fun stack _ => fails stack⟩

omit idle in
/-- Operations that do the same leave the same. -/
theorem leavesNothing_congr
    {action other : Session Value}
    (same :
      ∀ stack,
        action (machine.on config stack) = other (machine.on config stack))
    (leaves : machine.LeavesNothing config depth other) :
    machine.LeavesNothing config depth action := by
  rcases leaves with ⟨value, succeeds⟩ | ⟨error, fails⟩
  · exact .inl ⟨value, fun stack stackDepth =>
      (same stack).trans (succeeds stack stackDepth)⟩
  · exact .inr ⟨error, fun stack stackDepth =>
      (same stack).trans (fails stack stackDepth)⟩

/-- Running an entry on its operands. -/
theorem leavesOne_runEntry
    (checked : machine.scopes.Checked)
    {entry : Entry}
    (entryChecked : entry.Checked)
    {operands : List Value}
    (counted : operands.length = entry.operandCount) :
    machine.LeavesOne config depth operands (runEntry entry) := by
  have confined :
      Eval.Confined operands.length 1
        (Eval.apply config (Eval.runTop config) machine.scopes entry) := by
    rw [counted]
    exact Eval.confined_apply
      (Eval.runProgram_confines config config.maxCallDepth) checked entryChecked
  have started (low : Stack) (lowDepth : low.depth = depth) :
      runEntry entry
        (machine.on config (low.pushAll (Eval.literals operands))) =
        execute (Eval.apply config (Eval.runTop config) machine.scopes entry)
          depth (machine.on config (low.pushAll (Eval.literals operands))) := by
    have height : (low.pushAll (Eval.literals operands)).depth =
        operands.length + depth := by
      simp [Stack.pushAll, Stack.depth, ← lowDepth]
    simp only [runEntry, bind_get, on, height, counted]
    rw [if_neg (by omega), Nat.add_sub_cancel_left]
  rcases leavesOne_of_confined idle config depth confined with
      ⟨value, succeeds⟩ | ⟨error, fails⟩
  · exact .inl ⟨value,
      fun low lowDepth => by rw [started low lowDepth, succeeds low lowDepth]⟩
  · exact .inr ⟨error,
      fun low lowDepth => by rw [started low lowDepth, fails low lowDepth]⟩

/-- Running a program, checked or not. -/
theorem leavesOne_runCode
    (checked : machine.scopes.Checked)
    (code : Code) :
    machine.LeavesOne config depth [] (runCode code) := by
  cases accepted : Code.check code with
  | error fault =>
      refine .inr
        ⟨.runtime (Failure.ofFault (.type (.malformed fault))), fun low _ => ?_⟩
      simp only [runCode, accepted, fail, throw_apply]
      rfl
  | ok _ =>
      have confined :
          Eval.Confined ([] : List Value).length 1
            (Eval.runTop config machine.scopes none code) :=
        Eval.runProgram_confines config config.maxCallDepth machine.scopes
          none code checked accepted
      have started (low : Stack) (lowDepth : low.depth = depth) :
          runCode code (machine.on config (low.pushAll (Eval.literals []))) =
            execute (Eval.runTop config machine.scopes none code) depth
              (machine.on config (low.pushAll (Eval.literals []))) := by
        simp only [runCode, accepted, bind_get, on, ← lowDepth]
        rfl
      rcases leavesOne_of_confined idle config depth confined with
          ⟨value, succeeds⟩ | ⟨error, fails⟩
      · exact .inl ⟨value, fun low lowDepth => by
          rw [started low lowDepth, succeeds low lowDepth]⟩
      · exact .inr ⟨error, fun low lowDepth => by
          rw [started low lowDepth, fails low lowDepth]⟩

omit idle in
/-- An expression on its own is compiled against the entries of the machine. -/
theorem expr_of_compile
    {source : String}
    {code : Code}
    (compiled : machine.compile source = .ok code) :
    ∃ parsed, Compile.expr (Signatures.ofEntries machine.entries) [] parsed =
      .ok code := by
  obtain ⟨tokens, -, rest⟩ := except_bind_eq_ok.mp compiled
  obtain ⟨parsed, -, last⟩ := except_bind_eq_ok.mp rest
  exact ⟨parsed, except_mapError_eq_ok.mp last⟩

omit idle in
/-- What an expression on its own compiles to is checked. -/
theorem check_of_compile
    {source : String}
    {code : Code}
    (compiled : machine.compile source = .ok code) :
    Code.check code = .ok () := by
  obtain ⟨parsed, outcome⟩ := expr_of_compile compiled
  exact (Compile.emit_of_expr outcome).2

/-- Evaluating an expression without storing it. -/
theorem leavesNothing_eval
    (checked : machine.scopes.Checked)
    (source : String) :
    machine.LeavesNothing config depth (eval source) := by
  cases compiled : machine.compile source with
  | error error =>
      refine leavesNothing_of_error config depth (.source error) fun stack => ?_
      have same : (machine.on config stack).compile source = .error error :=
        compiled
      simp only [eval, bind_get, same, throw_apply]
  | ok code =>
      refine leavesNothing_congr config depth (fun stack => ?_)
        (leavesNothing_evaluateInside idle config depth checked
          (check_of_compile compiled) id)
      have same : (machine.on config stack).compile source = .ok code :=
        compiled
      simp only [eval, bind_get, same]

omit idle in
/-- Literals in front of a program raise its height by their number. -/
theorem heightFrom_literals
    (index start : Nat)
    (values : List Value)
    (rest : Code) :
    Code.heightFrom index start (values.map Cell.literal ++ rest) =
      Code.heightFrom (index + values.length) (start + values.length) rest := by
  induction values generalizing index start with
  | nil => rfl
  | cons value others inductionHypothesis =>
      simp only [List.map_cons, List.cons_append, Code.heightFrom, Cell.pops,
        Cell.pushes, Nat.not_lt_zero, if_false, Nat.sub_zero,
        inductionHypothesis, List.length_cons]
      congr 1 <;> omega

omit idle in
/--
A program that pushes the values its last cell takes leaves exactly one value.
-/
theorem check_literals
    {values : List Value}
    {cell : Cell}
    (taken : cell.pops = values.length) :
    Code.check (Eval.literals values ++ [cell]) = .ok () := by
  rw [Code.check_eq_ok, Code.height, Eval.literals, heightFrom_literals]
  simp [Code.heightFrom, Cell.pushes, taken]

omit idle in
/--
The program of a built-in function on its arguments leaves exactly one value.
-/
theorem check_builtinCall
    {builtin : Builtin}
    {arguments : List Value}
    (counted : builtin.arity = arguments.length) :
    Code.check (arguments.map Cell.literal ++ [.op (.ofBuiltin builtin)]) =
      .ok () :=
  check_literals ((Compile.arity_ofBuiltin builtin).trans counted)

omit idle in
/-- A call with the wrong number of arguments is refused. -/
theorem leavesNothing_checkArity
    {name : String}
    {expected found : Nat}
    {rest : Session Value}
    (accepted : expected = found → machine.LeavesNothing config depth rest) :
    machine.LeavesNothing config depth
      (checkArity name expected found >>= fun _ => rest) := by
  by_cases same : expected = found
  · simp only [checkArity, same, if_true]
    exact accepted same
  · refine leavesNothing_of_error config depth
      (.runtime (Failure.ofFault (.type (.argumentCount name expected found))))
      fun stack => ?_
    simp only [checkArity, same, if_false]
    rfl

/-- Pushing the operands of an entry, running it and taking its value. -/
theorem leavesNothing_valueOf
    (checked : machine.scopes.Checked)
    {entry : Entry}
    (entryChecked : entry.Checked)
    {operands : List Value}
    (counted : operands.length = entry.operandCount) :
    machine.LeavesNothing config depth
      (pushAll (Eval.literals operands) >>= fun _ => valueOf entry) := by
  have pushed (stack : Stack) :
      (pushAll (Eval.literals operands) >>= fun _ => valueOf entry)
        (machine.on config stack) =
        valueOf entry
          (machine.on config (stack.pushAll (Eval.literals operands))) :=
    rfl
  rcases leavesOne_runEntry idle config depth checked entryChecked counted with
      ⟨value, succeeds⟩ | ⟨error, fails⟩
  · refine .inl ⟨value, fun stack stackDepth => ?_⟩
    rw [pushed, valueOf, bind_of_ok (succeeds stack stackDepth)]
    rfl
  · refine .inr ⟨error, fun stack stackDepth => ?_⟩
    rw [pushed, valueOf, bind_of_error (fails stack stackDepth)]

/-- Calling an entry, which may not be one that can be called. -/
theorem leavesNothing_callEntry
    (checked : machine.scopes.Checked)
    {entry : Entry}
    (entryChecked : entry.Checked)
    (name : String)
    (arguments : List Value) :
    machine.LeavesNothing config depth
      (match entry.arity? with
        | none => fail (Eval.wrongUse entry .called)
        | some arity => do
            checkArity name arity arguments.length
            pushAll (arguments.map Cell.literal)
            valueOf entry) := by
  cases known : entry.arity? with
  | none =>
      exact leavesNothing_of_error config depth
        (.runtime (Failure.ofFault (Eval.wrongUse entry .called)))
        fun stack => rfl
  | some arity =>
      refine leavesNothing_checkArity config depth fun counted => ?_
      have operands := Entry.operandCount_of_arity? known
      exact leavesNothing_valueOf idle config depth checked entryChecked
        (operands.trans counted).symm

/-- Calling a built-in function, a function or a table by its name. -/
theorem leavesNothing_call
    (checked : machine.scopes.Checked)
    (name : String)
    (arguments : List Value) :
    machine.LeavesNothing config depth (call name arguments) := by
  unfold call
  cases Builtin.ofName? name with
  | some builtin =>
      refine leavesNothing_checkArity config depth fun counted => ?_
      exact leavesNothing_evaluateInside idle config depth checked
        (check_builtinCall counted) _
  | none =>
      cases found : machine.find? name with
      | none =>
          refine leavesNothing_of_error config depth
            (.runtime (Failure.ofFault (.unboundName name))) fun stack => ?_
          have same : (machine.on config stack).find? name = none := found
          simp only [bind_get, same]
          rfl
      | some entry =>
          have entryChecked := checked.of_mem (Scopes.mem_of_find? found)
          refine leavesNothing_congr config depth (fun stack => ?_)
            (leavesNothing_callEntry idle config depth checked entryChecked
              name arguments)
          have same : (machine.on config stack).find? name = some entry := found
          simp only [bind_get]
          generalize (machine.on config stack).find? name = known at same ⊢
          subst same
          rfl

end Discipline

/--
Stack discipline of evaluation, on every loaded machine, under all settings and
at every depth of the stack.  An entry leaves one value in the place of its
operands, or drops them; a program leaves one value more, or nothing, also when
it is refused; evaluating an expression and calling by name leave the stack as
it was.  The value or the error is the same on all stacks of one depth.
-/
theorem stack_discipline
    {machine : Machine}
    (loaded : machine.Loaded)
    (config : Config)
    (depth : Nat) :
    (∀ entry ∈ machine.entries, ∀ operands : List Value,
      operands.length = entry.operandCount →
        machine.LeavesOne config depth operands (runEntry entry)) ∧
    (∀ code : Code, machine.LeavesOne config depth [] (runCode code)) ∧
    (∀ source : String, machine.LeavesNothing config depth (eval source)) ∧
    (∀ (name : String) (arguments : List Value),
      machine.LeavesNothing config depth (call name arguments)) := by
  have checked := loaded.checked
  have idle := loaded.callDepth
  refine ⟨?_, ?_, ?_, ?_⟩
  · intro entry member operands counted
    exact leavesOne_runEntry idle config depth checked
      (checked.globals entry member) counted
  · exact leavesOne_runCode idle config depth checked
  · exact leavesNothing_eval idle config depth checked
  · exact leavesNothing_call idle config depth checked

/--
A function of a loaded machine leaves one value in the place of its argument.
-/
theorem stack_discipline_function :
    ∃ (machine : Machine) (entry : Entry),
      machine.Loaded ∧ machine.find? "f" = some entry ∧
      machine.LeavesOne {} 2 [.int 7] (runEntry entry) := by
  obtain ⟨machine, loaded, entries⟩ := exists_loaded
  have found : machine.find? "f" = machine.entries.find? fun entry =>
      entry.name = "f" := by
    simp [find?, Scopes.find?, loaded.frames, Bindings.get?, Machine.entries]
  rw [entries] at found
  refine ⟨machine, _, loaded, found, ?_⟩
  refine (stack_discipline loaded {} 2).1 _ ?_ [.int 7] rfl
  rw [entries]
  exact List.mem_cons_self

end Machine

end Formulary
