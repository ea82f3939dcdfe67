import Formulary.Proofs.Machine.Limits
import Formulary.Proofs.Machine.ReadOnly
import Formulary.Proofs.Machine.Resolution

namespace Formulary

open Stateful

/-!
# What operations give

An operation gives a value or an error and leaves a machine.  Evaluations leave
the machine they started on, so that all there is to say about them is what they
give: the value on top of the stack at the end of a run, or its failure.
-/

namespace Machine

/-- What an operation gives, whatever machine it leaves. -/
def given : EStateM.Result Error Machine α → Except Error α
  | .ok a _ => .ok a
  | .error error _ => .error error

theorem ok_of_given
    {result : EStateM.Result Error Machine α}
    {a : α}
    (gives : given result = .ok a) :
    result = .ok a (final result) := by
  cases result with
  | ok b next =>
      cases gives
      rfl
  | error error next => cases gives

theorem given_map
    (action : Session α)
    (wrap : α → β)
    (machine : Machine) :
    given ((action >>= fun a => pure (wrap a)) machine) =
      (given (action machine)).map wrap := by
  cases outcome : action machine with
  | ok a next => rw [bind_of_ok outcome]; rfl
  | error error next => rw [bind_of_error outcome]; rfl

theorem ask_eq_given
    (query : Query)
    (machine : Machine) :
    (query.ask machine).1 = given (query.session machine) := by
  unfold Query.ask
  cases query.session machine <;> rfl

/-- The value on top of a stack. -/
def topValue (stack : Stack) : Except Fault Value := do
  let (cell, _) ← stack.pop
  cell.result

/-- What the end of an evaluation gives, the value being on top of the stack. -/
def reached (context : Failure → Failure) :
    EStateM.Result Failure Run Unit → Except Error Value
  | .ok _ run => (topValue run.stack).mapError fun fault =>
      .runtime (context (Failure.ofFault fault))
  | .error failure _ => .error (.runtime (context failure))

/-- Taking the value from the stack of a machine. -/
theorem given_top (machine : Machine) :
    given ((pop >>= fun cell => ofExcept cell.result) machine) =
      (topValue machine.stack).mapError fun fault =>
        .runtime (Failure.ofFault fault) := by
  obtain ⟨scopes, ⟨cells⟩, config, printed, callDepth⟩ := machine
  cases cells with
  | nil => rfl
  | cons cell below =>
      have popped :
          pop ⟨scopes, ⟨cell :: below⟩, config, printed, callDepth⟩ =
            .ok cell ⟨scopes, ⟨below⟩, config, printed, callDepth⟩ :=
        rfl
      rw [bind_of_ok popped]
      simp only [topValue, Stack.pop, except_bind_ok]
      cases cell.result <;> rfl

section Operations

variable
  {machine : Machine}
  (config : Config)
  (stack : Stack)

/-- Evaluating a program gives the value it leaves. -/
theorem given_evaluateInside
    (context : Failure → Failure)
    (code : Code) :
    given (evaluateInside context code (machine.on config stack)) =
      reached context
        (Eval.runTop config machine.scopes none code ⟨stack, 0, 0⟩) := by
  have evaluates :=
    evaluateInside_under context code { machine with stack := stack } config
  refine (congrArg given evaluates).trans ?_
  show given
    (ending _ _ _ _ (Eval.result config machine.scopes code ⟨stack, 0, 0⟩)) = _
  unfold Eval.result
  cases outcome : Eval.runTop config machine.scopes none code ⟨stack, 0, 0⟩ with
  | error failure run =>
      rw [bind_of_error outcome]
      rfl
  | ok _ run =>
      rw [bind_of_ok outcome]
      obtain ⟨⟨cells⟩, steps, callDepth⟩ := run
      cases cells with
      | nil => rfl
      | cons cell below =>
          have popped :
              Eval.pop ⟨⟨cell :: below⟩, steps, callDepth⟩ =
                .ok cell ⟨⟨below⟩, steps, callDepth⟩ :=
            rfl
          rw [bind_of_ok popped]
          simp only [reached, topValue, Stack.pop, except_bind_ok]
          cases cell.result <;> rfl

/-- Evaluating an expression gives the value its program leaves. -/
theorem given_eval
    {text : String}
    {code : Code}
    (compiled : machine.compile text = .ok code) :
    given (eval text (machine.on config stack)) =
      reached id
        (Eval.runTop config machine.scopes none code ⟨stack, 0, 0⟩) := by
  have same : (machine.on config stack).compile text = .ok code := compiled
  rw [← given_evaluateInside]
  simp only [eval, bind_get, same]

/-- Taking the value of an entry on its operands gives the value it leaves. -/
theorem given_valueOf
    {entry : Entry}
    {operands : List Value}
    (counted : operands.length = entry.operandCount) :
    given (valueOf entry
      (machine.on config (stack.pushAll (Eval.literals operands)))) =
      reached id
        (Eval.apply config (Eval.runTop config) machine.scopes entry
          ⟨stack.pushAll (Eval.literals operands), 0, 0⟩) := by
  have enough :
      ¬ (stack.pushAll (Eval.literals operands)).depth <
        entry.operandCount := by
    simp only [Stack.pushAll, Stack.depth, List.length_append,
      List.length_reverse, Eval.length_literals]
    omega
  have runs :
      runEntry entry
        (machine.on config (stack.pushAll (Eval.literals operands))) =
        execute (Eval.apply config (Eval.runTop config) machine.scopes entry)
          ((stack.pushAll (Eval.literals operands)).depth - entry.operandCount)
          (machine.on config (stack.pushAll (Eval.literals operands))) := by
    simp only [runEntry, bind_get, on, enough, if_false]
  cases outcome :
      Eval.apply config (Eval.runTop config) machine.scopes entry
        ⟨stack.pushAll (Eval.literals operands), 0, 0⟩ with
  | error failure run =>
      simp only [execute, fresh, on, outcome] at runs
      rw [valueOf, on, bind_of_error runs]
      rfl
  | ok _ run =>
      simp only [execute, fresh, on, outcome] at runs
      rw [valueOf, on, bind_of_ok runs]
      exact given_top _

end Operations

/-- A question that is answered by applying an entry to operands. -/
inductive Query.Applies (entry : Entry) : Query → List Value → Prop where
  | scalar
      (missing : Missing)
      (isScalar : entry.isScalar = true) :
      Applies entry (.scalar entry.name missing) []
  | valueOf
      (isScalar : entry.isScalar = true) :
      Applies entry (.valueOf entry) []
  | element
      {grid : Grid}
      {indices : List Int64}
      (isArray : entry.grid? = some grid)
      (ranked : indices.length = grid.rank) :
      Applies entry (.element entry indices) (indices.map Value.int)
  | call
      {arguments : List Value}
      (callable : entry.arity? = some arguments.length) :
      Applies entry (.call entry.name arguments) arguments

namespace Query.Applies

variable
  {entry : Entry}
  {query : Query}
  {operands : List Value}
  (applies : query.Applies entry operands)
include applies

theorem counted : operands.length = entry.operandCount := by
  cases applies with
  | scalar missing isScalar =>
      exact (Entry.operandCount_of_isScalar isScalar).symm
  | valueOf isScalar => exact (Entry.operandCount_of_isScalar isScalar).symm
  | element isArray ranked =>
      rw [Entry.operandCount_of_grid? isArray, List.length_map, ranked]
  | call callable => exact (Entry.operandCount_of_arity? callable).symm

/-- The answer is the value of the entry on its operands. -/
theorem ask_eq
    {machine : Machine}
    (loaded : machine.Loaded)
    (member : entry ∈ machine.entries)
    (config : Config)
    (stack : Stack) :
    (query.ask (machine.on config stack)).1 =
      (given (Machine.valueOf entry
        (machine.on config (stack.pushAll (Eval.literals operands))))).map
          .value := by
  have wellFormed := loaded.wellFormed
  have found : (machine.on config stack).find? entry.name = some entry :=
    wellFormed.found entry member
  rw [ask_eq_given, ← given_map]
  congr 1
  cases applies with
  | scalar missing isScalar =>
      simp only [session, Machine.scalar, bind_get, found, isScalar, if_true,
        bind_assoc, pure_bind]
      rfl
  | valueOf isScalar => rfl
  | element isArray ranked =>
      simp only [session, Machine.element, isArray, ranked,
        if_true, ← Eval.literals_ints]
      rfl
  | call callable =>
      have notBuiltin := (wellFormed.entries entry member).notBuiltin
      simp only [session, Machine.call, notBuiltin, bind_get, found, callable,
        checkArity, if_true, bind_assoc]
      rfl

end Query.Applies

end Machine

end Formulary
