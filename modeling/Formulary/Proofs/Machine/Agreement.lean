import Formulary.Proofs.Eval.Earlier
import Formulary.Proofs.Machine.Expressions
import Formulary.Proofs.Machine.Given

namespace Formulary

open Stateful

/-!
# Questions and expressions agree

A scalar, an element and a call can be asked for directly, or by evaluating the
expression that names them, with literals for the operands.  Both ways give the
same value or fail for the same reason, unless a limit ends the evaluation of
the expression, which takes one more level and some more steps.
-/

namespace Entry

/-- The cell of a program that applies an entry to its operands. -/
def reference (entry : Entry) : Cell :=
  match entry.definition with
  | .scalar _ => .variable entry.name
  | .array grid => .element entry.name grid.rank
  | .function params _ => .call entry.name params.length
  | .curve _ => .lookup entry.name

theorem reference?_reference
    (entry : Entry) :
    entry.reference.reference? = some entry.name := by
  obtain ⟨name, definition⟩ := entry
  cases definition <;> rfl

theorem useFault?_reference
    (entry : Entry) :
    Eval.useFault? entry.reference entry = none := by
  refine Eval.useFault?_of_signature ?_
  obtain ⟨name, definition⟩ := entry
  cases definition <;> rfl

theorem reference_of_isScalar
    {entry : Entry}
    (isScalar : entry.isScalar = true) :
    entry.reference = .variable entry.name := by
  obtain ⟨name, definition⟩ := entry
  cases definition <;> simp_all [Entry.isScalar, kind, reference]

theorem reference_of_grid?
    {entry : Entry}
    {grid : Grid}
    (isArray : entry.grid? = some grid) :
    entry.reference = .element entry.name grid.rank := by
  obtain ⟨name, definition⟩ := entry
  cases definition <;> simp_all [grid?, reference]

end Entry

namespace Machine

/--
The expression of a built-in function or of an entry on literals, for a direct
question.
-/
inductive Query.Written (machine : Machine) : Query → String → Prop where
  | scalar
      (entry : Entry)
      (missing : Missing)
      (member : entry ∈ machine.entries)
      (isScalar : entry.isScalar = true) :
      Written machine (.scalar entry.name missing) entry.name
  | element
      (entry : Entry)
      (grid : Grid)
      (indices : List Int64)
      (member : entry ∈ machine.entries)
      (isArray : entry.grid? = some grid)
      (ranked : indices.length = grid.rank)
      (writable : ∀ index ∈ indices, index ≠ Int64.minValue) :
      Written machine (.element entry indices)
        (Entry.elementText entry.name indices)
  | builtin
      (builtin : Builtin)
      (arguments : List Value)
      (counted : arguments.length = builtin.arity)
      (writable : ∀ value ∈ arguments, value.Writable) :
      Written machine (.call builtin.name arguments)
        (Entry.callText builtin.name arguments)
  | call
      (entry : Entry)
      (arguments : List Value)
      (member : entry ∈ machine.entries)
      (callable : entry.arity? = some arguments.length)
      (writable : ∀ value ∈ arguments, value.Writable) :
      Written machine (.call entry.name arguments)
        (Entry.callText entry.name arguments)

/--
How the result of an evaluated expression compares with that of a direct
question.  A limit ended the evaluation, or both are the same value, or both
have failed with the same fault.
-/
inductive Agree (evaluated direct : Except Error α) : Prop where
  | limited
      (failure : Failure)
      (fails : evaluated = .error (.runtime failure))
      (isLimit : failure.fault.label = .nonTermination)
  | value
      (a : α)
      (succeeds : evaluated = .ok a)
      (succeedsToo : direct = .ok a)
  | failure
      (failure other : Failure)
      (fails : evaluated = .error (.runtime failure))
      (failsToo : direct = .error (.runtime other))
      (sameFault : other.fault = failure.fault)

theorem Agree.map
    {evaluated direct : Except Error α}
    (agree : Agree evaluated direct)
    (wrap : α → β) :
    Agree (evaluated.map wrap) (direct.map wrap) := by
  cases agree with
  | limited failure fails isLimit =>
      exact .limited failure (congrArg (Except.map wrap) fails) isLimit
  | value a succeeds succeedsToo =>
      exact .value (wrap a) (congrArg (Except.map wrap) succeeds)
        (congrArg (Except.map wrap) succeedsToo)
  | failure failure other fails failsToo sameFault =>
      exact .failure failure other (congrArg (Except.map wrap) fails)
        (congrArg (Except.map wrap) failsToo) sameFault

/-- Runs that end alike give the same, unless a limit ends the late one. -/
theorem agree_of_endsAs
    {early late : EStateM.Result Failure Run Unit}
    (endsAs : Eval.EndsAs early late) :
    Agree (reached id late) (reached id early) := by
  cases endsAs with
  | cutShort limited =>
      obtain ⟨failure, last, rfl, isLimit⟩ := limited
      exact .limited failure rfl isLimit
  | value _ run later succeeds succeedsToo ahead =>
      rw [succeeds, succeedsToo]
      simp only [reached, ahead.stack]
      cases topValue run.stack with
      | ok value => exact .value value rfl rfl
      | error fault => exact .failure _ _ rfl rfl rfl
  | failure failure run later fails failsToo =>
      rw [fails, failsToo]
      exact .failure failure failure rfl rfl rfl

/-- A failure inside an entry has the same fault. -/
theorem agree_inside
    (name : String)
    (outcome : EStateM.Result Failure Run Unit) :
    Agree (reached id outcome) (reached (Failure.inside name) outcome) := by
  cases outcome with
  | error failure run =>
      exact .failure failure (failure.inside name) rfl rfl rfl
  | ok _ run =>
      simp only [reached]
      cases topValue run.stack with
      | ok value => exact .value value rfl rfl
      | error fault => exact .failure _ _ rfl rfl rfl

section Questions

variable
  {machine : Machine}
  (config : Config)
  (stack : Stack)

/--
A program that pushes the operands of an entry and refers to it ends as the
entry does.
-/
theorem agree_entry
    (loaded : machine.Loaded)
    {entry : Entry}
    (member : entry ∈ machine.entries)
    {operands : List Value}
    (counted : operands.length = entry.operandCount)
    {text : String}
    (compiled : machine.compile text =
      .ok (Eval.literals operands ++ [entry.reference])) :
    Agree (given (eval text (machine.on config stack)))
      (given (valueOf entry
        (machine.on config (stack.pushAll (Eval.literals operands))))) := by
  have found :
      Eval.lookup? config machine.scopes none entry.name = some entry := by
    have inGlobals := Bindings.get?_of_mem loaded.wellFormed.distinct member
    unfold Eval.lookup?
    cases config.nameResolution with
    | dynamic => exact loaded.wellFormed.found entry member
    | lexical => exact inGlobals
  have endsAs :=
    Eval.apply_endsAs_program entry.reference?_reference found
      entry.useFault?_reference operands stack
  rw [given_eval config stack compiled, given_valueOf config stack counted]
  exact agree_of_endsAs endsAs

/--
A built-in function is executed by the same program, called or in an expression.
-/
theorem agree_builtin
    {builtin : Builtin}
    {arguments : List Value}
    (counted : arguments.length = builtin.arity)
    (writable : ∀ value ∈ arguments, value.Writable) :
    Agree (given
      (eval (Entry.callText builtin.name arguments) (machine.on config stack)))
      (given (call builtin.name arguments (machine.on config stack))) := by
  have isBuiltin := Builtin.ofName?_name builtin
  have resolved :
      Compile.callCell (Signatures.ofEntries machine.entries) [] builtin.name
        arguments.length =
        .ok (.op (.ofBuiltin builtin)) := by
    rw [counted]
    exact Compile.callCell_builtin builtin List.not_mem_nil
  have compiled := compile_callText builtin.isName resolved writable
  have called :
      call builtin.name arguments (machine.on config stack) =
        evaluateInside (Failure.inside builtin.name)
          (Eval.literals arguments ++ [.op (.ofBuiltin builtin)])
          (machine.on config stack) := by
    simp only [call, isBuiltin, checkArity, counted, if_true]
    rfl
  rw [given_eval config stack compiled, called, given_evaluateInside]
  exact agree_inside builtin.name _

/-- The arguments of an entry that can be called are its operands. -/
theorem resolves_call
    (loaded : machine.Loaded)
    {entry : Entry}
    (member : entry ∈ machine.entries)
    {count : Nat}
    (callable : entry.arity? = some count) :
    Compile.callCell (Signatures.ofEntries machine.entries) []
      entry.name count =
      .ok entry.reference := by
  have notBuiltin := (loaded.wellFormed.entries entry member).notBuiltin
  have declared := loaded.wellFormed.signature member
  obtain ⟨name, definition⟩ := entry
  cases definition with
  | scalar | array => cases callable
  | function params body =>
      cases callable
      simp_all [Compile.callCell, Compile.calleeOf, Entry.signature,
        Entry.reference]
  | curve points =>
      cases callable
      simp_all [Compile.callCell, Compile.calleeOf, Entry.signature,
        Entry.reference]

end Questions

/--
Questions and expressions agree.  On every machine reached by successful loads,
under all settings and on every stack, asking for a scalar, an element or the
result of a call gives what the expression of this question evaluates to, or
fails with the same fault, unless a limit ends the evaluation.
-/
theorem questions_agree_with_expressions
    {machine : Machine}
    (loaded : machine.Loaded)
    (config : Config)
    (stack : Stack)
    {query : Query}
    {text : String}
    (written : query.Written machine text) :
    Agree ((Query.eval text).ask (machine.on config stack)).1
      (query.ask (machine.on config stack)).1 := by
  rw [ask_eq_given, ask_eq_given]
  have evaluates :
      given ((Query.eval text).session (machine.on config stack)) =
        (given (eval text (machine.on config stack))).map .value :=
    given_map _ _ _
  rw [evaluates]
  cases written with
  | scalar entry missing member isScalar =>
      have applies := Query.Applies.scalar missing isScalar
      have compiled := compile_name loaded member isScalar
      rw [← Entry.reference_of_isScalar isScalar] at compiled
      rw [← ask_eq_given, applies.ask_eq loaded member config stack]
      exact
        (agree_entry config stack loaded member applies.counted compiled).map _
  | element entry grid indices member isArray ranked writable =>
      have applies := Query.Applies.element isArray ranked
      have compiled := compile_elementText loaded member isArray ranked writable
      rw [← Entry.reference_of_grid? isArray] at compiled
      rw [← ask_eq_given, applies.ask_eq loaded member config stack]
      exact
        (agree_entry config stack loaded member applies.counted compiled).map _
  | builtin builtin arguments counted writable =>
      simp only [Query.session]
      rw [given_map]
      exact (agree_builtin config stack counted writable).map _
  | call entry arguments member callable writable =>
      have applies := Query.Applies.call callable
      have resolved := resolves_call loaded member callable
      have compiled :=
        compile_callText (loaded.named entry member) resolved writable
      rw [← ask_eq_given, applies.ask_eq loaded member config stack]
      exact
        (agree_entry config stack loaded member applies.counted compiled).map _

/--
A call of a function with a negative number, asked for directly and in an
expression.
-/
theorem questions_agree_with_expressions_call :
    ∃ (machine : Machine) (query : Query),
      machine.Loaded ∧ query.Written machine "f(-3)" ∧
      (query.ask (machine.on {} .empty)).1 = .ok (.value (.int (-1))) ∧
      Agree ((Query.eval "f(-3)").ask (machine.on {} .empty)).1
        (query.ask (machine.on {} .empty)).1 := by
  have loads :
      load .replace "" "k = 2; f(x) = x + k;" (ofConfig {}) =
        .ok () (holding [⟨"k", .scalar [.literal (.int 2)]⟩,
          ⟨"f", .function ["x"]
            [.variable "x", .variable "k", .op (.binary .add)]⟩]) := by
    decide +kernel
  have loaded := (Loaded.start {}).load loads
  have written :
      Query.Written
        (holding [⟨"k", .scalar [.literal (.int 2)]⟩,
          ⟨"f", .function ["x"]
            [.variable "x", .variable "k", .op (.binary .add)]⟩])
        (.call "f" [.int (-3)]) "f(-3)" :=
    .call ⟨"f", .function ["x"]
      [.variable "x", .variable "k", .op (.binary .add)]⟩ [.int (-3)]
      (by decide) rfl (by decide)
  refine ⟨_, _, loaded, written, ?_, ?_⟩
  · decide +kernel
  · exact questions_agree_with_expressions loaded {} .empty written

-- With a single level, a scalar can be asked
-- for, but not named in an expression.
example :
    let machine := holding [⟨"x", .scalar [.literal (.int 1)]⟩]
    let narrow : Config := { maxCallDepth := 1 }
    ((Query.scalar "x" .abort).ask (machine.on narrow .empty)).1 =
      .ok (.value (.int 1)) ∧
      ((Query.eval "x").ask (machine.on narrow .empty)).1 =
        .error (.runtime ⟨.nonTermination (.callDepth 1), ["x"]⟩) := by
  constructor
  · decide +kernel
  · decide +kernel

end Machine

end Formulary
