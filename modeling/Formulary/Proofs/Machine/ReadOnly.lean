import Formulary.Machine.Report
import Formulary.Proofs.Machine.Discipline

namespace Formulary

open Stateful

/-!
# Evaluations read only

Asking a machine for a value, whether it answers or refuses, leaves the machine
as it was: its scopes, its stack, its settings and what it has printed.  Of any
sequence of questions each is therefore answered as if it were the only one.
-/

namespace Machine

/-- What a machine can be asked for. -/
inductive Query where
  | scalar (name : String) (missing : Missing)
  | valueOf (entry : Entry)
  | element (entry : Entry) (indices : List Int64)
  | call (name : String) (arguments : List Value)
  | callNumber (name : String) (arguments : List Double)
  | eval (source : String)
  | constants

/-- What a machine answers. -/
inductive Answer where
  /-- The name is not declared. -/
  | missing
  | value (value : Value)
  | number (x : Double)
  | text (text : String)
deriving Repr, DecidableEq

namespace Query

/-- The operation that answers a question. -/
def session : Query → Session Answer
  | .scalar name missing => do
      match ← Machine.scalar name missing with
      | some value => return .value value
      | none => return .missing
  | .valueOf entry => return .value (← Machine.valueOf entry)
  | .element entry indices => return .value (← Machine.element entry indices)
  | .call name arguments => return .value (← Machine.call name arguments)
  | .callNumber name arguments =>
      return .number (← Machine.callNumber name arguments)
  | .eval source => return .value (← Machine.eval source)
  | .constants =>
      fun machine => .ok (.text machine.constants.1) machine.constants.2

/-- The answer to a question, or the refusal, and the machine afterwards. -/
def ask (machine : Machine) (query : Query) : Except Error Answer × Machine :=
  match query.session machine with
  | .ok answer next => (.ok answer, next)
  | .error error next => (.error error, next)

/--
The answers to questions that are asked one after the other, each with the
machine after it.
-/
def askAll : Machine → List Query → List (Except Error Answer × Machine)
  | _, [] => []
  | machine, query :: rest =>
      let outcome := ask machine query
      outcome :: askAll outcome.2 rest

/--
Entries that a machine is asked for are its own, and take no operands but their
indices.
-/
def Belongs (machine : Machine) : Query → Prop
  | .valueOf entry => entry ∈ machine.entries ∧ entry.isScalar = true
  | .element entry _ => entry ∈ machine.entries
  | _ => True

end Query

/-- An operation that leaves a machine as it was, whether it fails or not. -/
def Untouched (machine : Machine) (action : Session α) : Prop :=
  final (action machine) = machine

namespace Untouched

variable {machine : Machine}

theorem pure (a : α) : machine.Untouched (pure a : Session α) :=
  rfl

theorem throw (error : Error) : machine.Untouched (throw error : Session α) :=
  rfl

/-- One operation after another. -/
theorem bind
    {action : Session α}
    {rest : α → Session β}
    (first : machine.Untouched action)
    (second : ∀ a, machine.Untouched (rest a)) :
    machine.Untouched (action >>= rest) := by
  unfold Untouched at first ⊢
  cases outcome : action machine with
  | ok a next =>
      rw [outcome] at first
      obtain rfl : next = machine := first
      rw [bind_of_ok outcome]
      exact second a
  | error error next =>
      rw [outcome] at first
      rw [bind_of_error outcome]
      exact first

/--
What leaves nothing on the stacks of a depth leaves each of them untouched.
-/
theorem ofLeavesNothing
    {config : Config}
    {stack : Stack}
    {action : Session Value}
    (leaves : machine.LeavesNothing config stack.depth action) :
    (machine.on config stack).Untouched action := by
  rcases leaves with ⟨value, succeeds⟩ | ⟨error, fails⟩
  · simp only [Untouched, succeeds stack rfl, final]
  · simp only [Untouched, fails stack rfl, final]

end Untouched

section Queries

variable
  {machine : Machine}
  (idle : machine.callDepth = 0)
  (checked : machine.scopes.Checked)
  (config : Config)
  (stack : Stack)

include idle checked

/-- A scalar is evaluated without operands. -/
theorem untouched_valueOf
    {entry : Entry}
    (entryChecked : entry.Checked)
    (isScalar : entry.isScalar = true) :
    (machine.on config stack).Untouched (valueOf entry) := by
  have counted : ([] : List Value).length = entry.operandCount :=
    (Entry.operandCount_of_isScalar isScalar).symm
  refine .ofLeavesNothing
    (leavesNothing_congr config stack.depth (fun low => ?_)
    (leavesNothing_valueOf idle config stack.depth checked
      entryChecked counted))
  rfl

theorem untouched_scalar
    (name : String)
    (missing : Missing) :
    (machine.on config stack).Untouched (scalar name missing) := by
  unfold Untouched
  cases found : machine.find? name with
  | none =>
      have same : (machine.on config stack).find? name = none := found
      cases missing <;> simp only [scalar, bind_get, same] <;> rfl
  | some entry =>
      have same : (machine.on config stack).find? name = some entry := found
      simp only [scalar, bind_get, same]
      by_cases isScalar : entry.isScalar = true
      · rw [if_pos isScalar]
        have entryChecked := checked.of_mem (Scopes.mem_of_find? found)
        have value :=
          untouched_valueOf idle checked config stack entryChecked isScalar
        exact value.bind fun _ => .pure _
      · rw [if_neg isScalar]
        rfl

theorem untouched_element
    {entry : Entry}
    (entryChecked : entry.Checked)
    (indices : List Int64) :
    (machine.on config stack).Untouched (element entry indices) := by
  unfold element
  cases isArray : entry.grid? with
  | none => exact .throw _
  | some grid =>
      by_cases ranked : indices.length = grid.rank
      · simp only [if_pos ranked]
        have counted : (indices.map Value.int).length = entry.operandCount := by
          rw [Entry.operandCount_of_grid? isArray, List.length_map, ranked]
        rw [Eval.literals_ints]
        exact .ofLeavesNothing
          (leavesNothing_valueOf idle config stack.depth checked
            entryChecked counted)
      · simp only [if_neg ranked]
        exact .throw _

theorem untouched_call
    (name : String)
    (arguments : List Value) :
    (machine.on config stack).Untouched (call name arguments) :=
  .ofLeavesNothing
    (leavesNothing_call idle config stack.depth checked name arguments)

theorem untouched_callNumber
    (name : String)
    (arguments : List Double) :
    (machine.on config stack).Untouched (callNumber name arguments) := by
  refine (untouched_call idle checked config stack name _).bind fun result => ?_
  cases result.asDouble? with
  | some x => exact .pure x
  | none => exact .throw _

theorem untouched_eval (source : String) :
    (machine.on config stack).Untouched (eval source) :=
  .ofLeavesNothing (leavesNothing_eval idle config stack.depth checked source)

/--
Scalars written as constants are evaluated one after the other, each on the same
machine.
-/
theorem constantLines_untouched
    {scalars : List Entry}
    (scalar : ∀ entry ∈ scalars, entry.Checked ∧ entry.isScalar = true) :
    ((machine.on config stack).constantLines scalars).2 =
      machine.on config stack := by
  induction scalars with
  | nil => rfl
  | cons entry rest inductionHypothesis =>
      obtain ⟨entryChecked, isScalar⟩ := scalar entry List.mem_cons_self
      have value :=
        untouched_valueOf idle checked config stack entryChecked isScalar
      have first : (constantLine entry (machine.on config stack)).2 =
          machine.on config stack := by
        unfold constantLine
        unfold Untouched at value
        cases outcome : Machine.valueOf entry (machine.on config stack) with
        | ok result next =>
            rw [outcome] at value
            exact value
        | error error next =>
            rw [outcome] at value
            exact value
      simp only [constantLines, first]
      exact inductionHypothesis fun other member =>
        scalar other (List.mem_cons_of_mem entry member)

theorem constants_untouched :
    (machine.on config stack).constants.2 = machine.on config stack := by
  refine constantLines_untouched idle checked config stack
    fun entry member => ?_
  obtain ⟨isEntry, isScalar⟩ := List.mem_filter.mp member
  exact ⟨checked.globals entry isEntry, isScalar⟩

/-- Asking one question leaves the machine as it was. -/
theorem untouched_session
    {query : Query}
    (belongs : query.Belongs machine) :
    (machine.on config stack).Untouched query.session := by
  cases query with
  | scalar name missing =>
      refine (untouched_scalar idle checked config stack name missing).bind
        fun found => ?_
      cases found with
      | some value => exact .pure _
      | none => exact .pure _
  | valueOf entry =>
      obtain ⟨isEntry, isScalar⟩ := belongs
      have entryChecked := checked.globals entry isEntry
      exact
        (untouched_valueOf idle checked config stack entryChecked isScalar).bind
        fun _ => .pure _
  | element entry indices =>
      have entryChecked := checked.globals entry belongs
      exact
        (untouched_element idle checked config stack entryChecked indices).bind
        fun _ => .pure _
  | call name arguments =>
      exact (untouched_call idle checked config stack name arguments).bind
        fun _ => .pure _
  | callNumber name arguments =>
      exact (untouched_callNumber idle checked config stack name arguments).bind
        fun _ => .pure _
  | eval source =>
      exact (untouched_eval idle checked config stack source).bind
        fun _ => .pure _
  | constants => exact constants_untouched idle checked config stack

theorem ask_untouched
    {query : Query}
    (belongs : query.Belongs machine) :
    (query.ask (machine.on config stack)).2 = machine.on config stack := by
  have answered := untouched_session idle checked config stack belongs
  unfold Untouched at answered
  unfold Query.ask
  cases outcome : query.session (machine.on config stack) with
  | ok answer next =>
      rw [outcome] at answered
      exact answered
  | error error next =>
      rw [outcome] at answered
      exact answered

end Queries

/--
Evaluation is read-only and independent of order.  When a loaded machine, under
any settings and with any stack, is asked a sequence of questions, then after
each of them the machine is what it was before the first, and each is answered
or refused as if it had been asked alone.
-/
theorem evaluations_read_only
    {machine : Machine}
    (loaded : machine.Loaded)
    (config : Config)
    (stack : Stack)
    {queries : List Query}
    (belong : ∀ query ∈ queries, query.Belongs machine) :
    Query.askAll (machine.on config stack) queries =
      queries.map fun query =>
        ((query.ask (machine.on config stack)).1, machine.on config stack) := by
  induction queries with
  | nil => rfl
  | cons query rest inductionHypothesis =>
      have unchanged :=
        ask_untouched loaded.callDepth loaded.checked config stack
          (belong query List.mem_cons_self)
      have others := inductionHypothesis fun other member =>
        belong other (List.mem_cons_of_mem query member)
      simp only [Query.askAll, unchanged, others, List.map_cons,
        List.cons.injEq, and_true]
      exact Prod.ext rfl unchanged

/--
A division by zero inside a function does not show in a scalar that is asked for
after it.
-/
theorem evaluations_read_only_division :
    ∃ (machine : Machine) (queries : List Query),
      machine.Loaded ∧
      (Query.askAll machine queries).map Prod.fst =
        [.ok (.value (.int 4)),
          .error (.runtime ⟨.arithmetic .divisionByZero, ["f"]⟩),
          .ok (.value (.int 4))] ∧
      Query.askAll machine queries =
        queries.map fun query => ((query.ask machine).1, machine) := by
  have loads :
      load .replace "" "f(x) = 8 / x; y = f(2);" (ofConfig {}) =
        .ok () { ofConfig {} with
          scopes := ⟨⟨[
            ⟨"f", .function ["x"]
              [.literal (.int 8), .variable "x", .op (.binary .div)]⟩,
            ⟨"y", .scalar [.literal (.int 2), .call "f" 1]⟩]⟩, []⟩ } := by
    decide +kernel
  have loaded := (Loaded.start {}).load loads
  refine ⟨_, [.scalar "y" .abort, .call "f" [.int 0], .scalar "y" .abort],
    loaded, ?_, ?_⟩
  · decide +kernel
  · exact evaluations_read_only loaded {} Stack.empty (by simp [Query.Belongs])

end Machine

end Formulary
