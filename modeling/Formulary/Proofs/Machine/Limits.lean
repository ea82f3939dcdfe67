import Formulary.Machine.Load
import Formulary.Proofs.Eval.Limits

namespace Formulary

open Stateful

/-!
# Limits only cut evaluations short

An operation that evaluates ends under wider limits as it does under narrower
ones: with the same value or the same error, call stack included, and with the
same stack.  The only exception is an operation that a narrower limit ends.
-/

namespace Eval

/-- Running a program and taking its value. -/
def result (config : Config) (scopes : Scopes) (code : Code) : Eval Value := do
  runTop config scopes none code
  let cell ← pop
  ofExcept cell.result

theorem outlasts_result
    {config wider : Config}
    (within : config.Within wider)
    (scopes : Scopes)
    (code : Code) :
    Outlasts (result wider scopes code) (result config scopes code) :=
  .bind (runTop_outlasts within scopes none code) fun _ => .refl _

end Eval

namespace Machine

/-- A machine under other settings. -/
def under (machine : Machine) (config : Config) : Machine :=
  { machine with config := config }

/--
How two operations end that are carried out under two settings.  A limit ends
the first one, or both end in the same way and leave the same machine, but for
its settings.
-/
inductive SameEnd
    (config wider : Config)
    (short long : EStateM.Result Error Machine α) : Prop where
  | cutShort
      (failure : Failure)
      (next : Machine)
      (fails : short = .error (.runtime failure) next)
      (isLimit : failure.fault.label = .nonTermination)
  | value
      (a : α)
      (next : Machine)
      (succeeds : short = .ok a (next.under config))
      (succeedsToo : long = .ok a (next.under wider))
  | error
      (error : Error)
      (next : Machine)
      (fails : short = .error error (next.under config))
      (failsToo : long = .error error (next.under wider))

/-- An operation that ends as a shorter one does, on every machine. -/
def Outlasts (config wider : Config) (long short : Session α) : Prop :=
  ∀ machine : Machine,
    SameEnd config wider (short (machine.under config))
      (long (machine.under wider))

/--
An operation that limits may cut short and that they do not change otherwise.
-/
def OnlyCutShort (config wider : Config) (action : Session α) : Prop :=
  Outlasts config wider action action

namespace Outlasts

variable {config wider : Config}

theorem pure (a : α) : OnlyCutShort config wider (pure a : Session α) :=
  fun machine => .value a machine rfl rfl

theorem throw
    (error : Error) :
    OnlyCutShort config wider (throw error : Session α) :=
  fun machine => .error error machine rfl rfl

theorem ofExcept
    (result : Except Fault α) :
    OnlyCutShort config wider (ofExcept result) := by
  cases result with
  | ok a => exact .pure a
  | error fault => exact .throw _

theorem pushAll
    (cells : List Cell) :
    OnlyCutShort config wider (pushAll cells) :=
  fun machine =>
    .value () { machine with stack := machine.stack.pushAll cells } rfl rfl

/-- One operation after another. -/
theorem bind
    {long short : Session α}
    {longRest shortRest : α → Session β}
    (first : Outlasts config wider long short)
    (second : ∀ a, Outlasts config wider (longRest a) (shortRest a)) :
    Outlasts config wider (long >>= longRest) (short >>= shortRest) := by
  intro machine
  cases first machine with
  | cutShort failure next fails isLimit =>
      exact .cutShort failure next (bind_of_error fails) isLimit
  | value a next succeeds succeedsToo =>
      rw [bind_of_ok succeeds, bind_of_ok succeedsToo]
      exact second a next
  | error error next fails failsToo =>
      exact .error error next (bind_of_error fails) (bind_of_error failsToo)

/-- An operation that looks at the machine, its settings included. -/
theorem ofGet
    {longRest shortRest : Machine → Session α}
    (second :
      ∀ machine : Machine,
        Outlasts config wider (longRest (machine.under wider))
          (shortRest (machine.under config))) :
    Outlasts config wider (get >>= longRest) (get >>= shortRest) :=
  fun machine => second machine machine

theorem pop : OnlyCutShort config wider pop := by
  intro machine
  cases popped : machine.stack.pop with
  | ok result =>
      refine .value result.1 { machine with stack := result.2 } ?_ ?_ <;>
        simp only [Machine.pop, bind_get, under, popped] <;> rfl
  | error fault =>
      refine .error (.runtime (Failure.ofFault fault)) machine ?_ ?_ <;>
        simp only [Machine.pop, bind_get, under, popped] <;> rfl

end Outlasts

/--
The outcome of an operation whose evaluation has ended, and the machine it
leaves.
-/
def ending
    (config : Config)
    (context : Failure → Failure)
    (kept lost : Run → Machine) :
    EStateM.Result Failure Run α → EStateM.Result Error Machine α
  | .ok a run => .ok a ((kept run).under config)
  | .error failure run =>
      .error (.runtime (context failure)) ((lost run).under config)

theorem execute_under
    (action : Eval Unit)
    (base : Nat)
    (machine : Machine)
    (config : Config) :
    execute action base (machine.under config) =
      ending config id machine.after
        (fun run => (machine.after run).truncate base)
        (action machine.fresh) := by
  have start : (machine.under config).fresh = machine.fresh := rfl
  rw [execute, start]
  cases action machine.fresh <;> rfl

theorem evaluate_under
    (code : Code)
    (machine : Machine)
    (config : Config) :
    evaluate code (machine.under config) =
      match Eval.result config machine.scopes code machine.fresh with
      | .ok value run =>
          .ok value
            (((machine.under config).after run).truncate machine.stack.depth)
      | .error failure run =>
          .error failure
            (((machine.under config).after run).truncate machine.stack.depth) :=
  rfl

theorem evaluateInside_under
    (context : Failure → Failure)
    (code : Code)
    (machine : Machine)
    (config : Config) :
    evaluateInside context code (machine.under config) =
      ending config context
        (fun run => (machine.after run).truncate machine.stack.depth)
        (fun run => (machine.after run).truncate machine.stack.depth)
        (Eval.result config machine.scopes code machine.fresh) := by
  rw [evaluateInside, evaluate_under]
  cases Eval.result config machine.scopes code machine.fresh <;> rfl

theorem SameEnd.ofEval
    {config wider : Config}
    {long short : Eval α}
    (outlasts : Eval.Outlasts long short)
    {context : Failure → Failure}
    (sameFault : ∀ failure, (context failure).fault = failure.fault)
    (kept lost : Run → Machine)
    (run : Run) :
    SameEnd config wider (ending config context kept lost (short run))
      (ending wider context kept lost (long run)) := by
  rcases outlasts run with ⟨failure, next, fails, isLimit⟩ | same
  · rw [fails]
    exact .cutShort (context failure) _ rfl (by rwa [sameFault])
  · rw [same]
    cases short run with
    | ok a next => exact .value a (kept next) rfl rfl
    | error failure next =>
        exact .error (.runtime (context failure)) (lost next) rfl rfl

section Operations

variable
  {config wider : Config}
  (within : config.Within wider)

theorem outlasts_execute
    {long short : Eval Unit}
    (outlasts : Eval.Outlasts long short)
    (base : Nat) :
    Outlasts config wider (execute long base) (execute short base) := by
  intro machine
  rw [execute_under, execute_under]
  exact .ofEval outlasts (fun _ => rfl) _ _ machine.fresh

include within

theorem onlyCutShort_evaluateInside
    (context : Failure → Failure)
    (sameFault : ∀ failure, (context failure).fault = failure.fault)
    (code : Code) :
    OnlyCutShort config wider (evaluateInside context code) := by
  intro machine
  rw [evaluateInside_under, evaluateInside_under]
  exact .ofEval (Eval.outlasts_result within machine.scopes code) sameFault _
    _ machine.fresh

theorem onlyCutShort_runEntry
    (entry : Entry) :
    OnlyCutShort config wider (runEntry entry) := by
  refine .ofGet fun machine => ?_
  by_cases missing : machine.stack.depth < entry.operandCount
  · have missingToo (settings : Config) :
        (machine.under settings).stack.depth < entry.operandCount := missing
    simp only [if_pos (missingToo _)]
    exact .throw _
  · have enough (settings : Config) :
        ¬ (machine.under settings).stack.depth < entry.operandCount := missing
    simp only [if_neg (enough _)]
    refine outlasts_execute ?_ _
    exact Eval.outlasts_apply within (Eval.runTop_outlasts within)
      machine.scopes entry

theorem onlyCutShort_runCode
    (code : Code) :
    OnlyCutShort config wider (runCode code) := by
  unfold runCode
  cases Code.check code with
  | error fault => exact .throw _
  | ok _ =>
      refine .ofGet fun machine => outlasts_execute ?_ _
      exact Eval.runTop_outlasts within machine.scopes none code

theorem onlyCutShort_valueOf
    (entry : Entry) :
    OnlyCutShort config wider (valueOf entry) :=
  .bind (onlyCutShort_runEntry within entry) fun _ =>
    .bind .pop fun _ => .ofExcept _

theorem onlyCutShort_scalar
    (name : String)
    (missing : Missing) :
    OnlyCutShort config wider (scalar name missing) := by
  refine .ofGet fun machine => ?_
  have sameEntry (settings : Config) :
      (machine.under settings).find? name = machine.find? name :=
    rfl
  simp only [sameEntry]
  cases machine.find? name with
  | none =>
      cases missing with
      | abort => exact .throw _
      | useDefault => exact .pure none
  | some entry =>
      by_cases isScalar : entry.isScalar = true
      · simp only [if_pos isScalar]
        exact .bind (onlyCutShort_valueOf within entry) fun _ => .pure _
      · simp only [if_neg isScalar]
        exact .throw _

theorem onlyCutShort_element
    (entry : Entry)
    (indices : List Int64) :
    OnlyCutShort config wider (element entry indices) := by
  unfold element
  cases entry.grid? with
  | none => exact .throw _
  | some grid =>
      by_cases ranked : indices.length = grid.rank
      · simp only [if_pos ranked]
        exact .bind (.pushAll _) fun _ => onlyCutShort_valueOf within entry
      · simp only [if_neg ranked]
        exact .throw _

omit within in
theorem onlyCutShort_checkArity
    (name : String)
    (expected found : Nat) :
    OnlyCutShort config wider (checkArity name expected found) := by
  unfold checkArity
  by_cases counted : expected = found
  · rw [if_pos counted]
    exact .pure ()
  · rw [if_neg counted]
    exact .throw _

theorem onlyCutShort_call
    (name : String)
    (arguments : List Value) :
    OnlyCutShort config wider (call name arguments) := by
  unfold call
  cases Builtin.ofName? name with
  | some builtin =>
      refine .bind (onlyCutShort_checkArity _ _ _) fun _ => ?_
      exact onlyCutShort_evaluateInside within (Failure.inside name)
        (fun _ => rfl) _
  | none =>
      refine .ofGet fun machine => ?_
      have sameEntry (settings : Config) :
          (machine.under settings).find? name = machine.find? name :=
        rfl
      simp only [sameEntry]
      cases machine.find? name with
      | none => exact .throw _
      | some entry =>
          dsimp only
          cases entry.arity? with
          | none => exact .throw _
          | some arity =>
              exact .bind (onlyCutShort_checkArity _ _ _) fun _ =>
                .bind (.pushAll _) fun _ => onlyCutShort_valueOf within entry

theorem onlyCutShort_callNumber
    (name : String)
    (arguments : List Double) :
    OnlyCutShort config wider (callNumber name arguments) := by
  refine .bind (onlyCutShort_call within name _) fun result => ?_
  cases result.asDouble? with
  | some x => exact .pure x
  | none => exact .throw _

theorem onlyCutShort_eval
    (source : String) :
    OnlyCutShort config wider (eval source) := by
  refine .ofGet fun machine => ?_
  have sameCode (settings : Config) :
      (machine.under settings).compile source = machine.compile source :=
    rfl
  simp only [sameCode]
  cases machine.compile source with
  | error error => exact .throw _
  | ok code => exact onlyCutShort_evaluateInside within id (fun _ => rfl) code

end Operations

/--
Limits only cut evaluations short.  Under two settings that differ in limits
only, the second ones being no narrower, every operation that evaluates ends in
the same way on every machine with every stack, unless a limit of the first
settings ends it.
-/
theorem limits_only_cut_short
    {config wider : Config}
    (within : config.Within wider) :
    (∀ entry, OnlyCutShort config wider (runEntry entry)) ∧
    (∀ code, OnlyCutShort config wider (runCode code)) ∧
    (∀ entry, OnlyCutShort config wider (valueOf entry)) ∧
    (∀ name missing, OnlyCutShort config wider (scalar name missing)) ∧
    (∀ entry indices, OnlyCutShort config wider (element entry indices)) ∧
    (∀ name arguments, OnlyCutShort config wider (call name arguments)) ∧
    (∀ name arguments, OnlyCutShort config wider (callNumber name arguments)) ∧
    ∀ source, OnlyCutShort config wider (eval source) := by
  refine ⟨?_, ?_, ?_, ?_, ?_, ?_, ?_, ?_⟩
  · exact onlyCutShort_runEntry within
  · exact onlyCutShort_runCode within
  · exact onlyCutShort_valueOf within
  · exact onlyCutShort_scalar within
  · exact onlyCutShort_element within
  · exact onlyCutShort_call within
  · exact onlyCutShort_callNumber within
  · exact onlyCutShort_eval within

/--
A number is negated within two steps, one level and one cell, and no wider
limits matter.
-/
theorem limits_only_cut_short_negation :
    ∃ (narrow : Config) (entry : Entry),
      narrow.Within {} ∧
      runEntry entry (ofConfig narrow) =
        .ok () { ofConfig narrow with stack := ⟨[.literal (.int (-3))]⟩ } ∧
      OnlyCutShort narrow {} (runEntry entry) := by
  have within :
      Config.Within
        { maxCallDepth := 1, maxSteps := some 2, maxStackSize := 1 } {} :=
    { callDepth := by decide
      stackSize := by decide
      steps := nofun
      extrapolation := rfl
      nameResolution := rfl }
  refine ⟨_, ⟨"y", .scalar [.literal (.int 3), .op .negate]⟩, within, ?_, ?_⟩
  · decide +kernel
  · exact (limits_only_cut_short within).1 _

end Machine

end Formulary
