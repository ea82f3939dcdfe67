import Formulary.Proofs.Eval.Capture
import Formulary.Proofs.Machine.Limits
import Formulary.Proofs.Machine.ReadOnly
import Formulary.Proofs.Machine.Resolution

namespace Formulary

open Stateful

/-!
# The policy for names without capture

On a machine whose functions have no parameter that is also a global name, the
two policies for looking up names answer every question in the same way.
-/

namespace Machine

/-- The outcome of an operation, for a machine under other settings. -/
def relabel
    (config : Config) :
    EStateM.Result Error Machine α → EStateM.Result Error Machine α
  | .ok a machine => .ok a (machine.under config)
  | .error error machine => .error error (machine.under config)

/--
An operation that ends under other settings as it does under those of the
machine.
-/
def Indifferent
    (config : Config)
    (machine : Machine)
    (action : Session α) :
    Prop :=
  action (machine.under config) = relabel config (action machine)

namespace Indifferent

variable
  {config : Config}
  {machine : Machine}

theorem pure (a : α) : Indifferent config machine (pure a : Session α) :=
  rfl

theorem throw
    (error : Error) :
    Indifferent config machine (throw error : Session α) :=
  rfl

theorem ofExcept
    (result : Except Fault α) :
    Indifferent config machine (ofExcept result) := by
  cases result with
  | ok a => exact .pure a
  | error fault => exact .throw _

theorem pop : Indifferent config machine pop := by
  cases popped : machine.stack.pop with
  | ok result =>
      simp only [Indifferent, Machine.pop, bind_get, under, popped]
      rfl
  | error fault =>
      simp only [Indifferent, Machine.pop, bind_get, under, popped]
      rfl

/-- One operation after another. -/
theorem bind
    {action : Session α}
    {rest : α → Session β}
    (first : Indifferent config machine action)
    (second : ∀ a next,
      action machine = .ok a next → Indifferent config next (rest a)) :
    Indifferent config machine (action >>= rest) := by
  unfold Indifferent at first ⊢
  cases outcome : action machine with
  | ok a next =>
      rw [outcome] at first
      rw [bind_of_ok outcome, bind_of_ok first]
      exact second a next outcome
  | error error next =>
      rw [outcome] at first
      rw [bind_of_error outcome, bind_of_error first]
      rfl

/-- An operation that looks at the machine, but not at its settings. -/
theorem ofGet
    {rest : Machine → Session α}
    (same : rest (machine.under config) = rest machine)
    (second : Indifferent config machine (rest machine)) :
    Indifferent config machine (get >>= rest) := by
  unfold Indifferent at second ⊢
  rw [bind_get, bind_get, same]
  exact second

theorem checkArity
    (name : String)
    (expected found : Nat) :
    Indifferent config machine (checkArity name expected found) := by
  unfold Machine.checkArity
  split
  · exact .pure ()
  · exact .throw _

/-- Running an entry, when the entry ends alike under both settings. -/
theorem runEntry
    {entry : Entry}
    (alike :
      Eval.apply machine.config (Eval.runTop machine.config) machine.scopes
        entry machine.fresh =
        Eval.apply config (Eval.runTop config) machine.scopes entry
          machine.fresh) :
    Indifferent config machine (runEntry entry) := by
  unfold Indifferent
  by_cases missing : machine.stack.depth < entry.operandCount
  · simp only [Machine.runEntry, bind_get, under, missing, if_true]
    rfl
  · simp only [Machine.runEntry, bind_get, missing, if_false, under]
    have start : ({ machine with config := config } : Machine).fresh =
        machine.fresh := rfl
    rw [execute, execute, start, ← alike]
    cases Eval.apply machine.config (Eval.runTop machine.config)
      machine.scopes entry
        machine.fresh with
    | ok _ run => rfl
    | error failure run => rfl

/-- Evaluating a program, when the program ends alike under both settings. -/
theorem evaluateInside
    {code : Code}
    (alike :
      Eval.runTop machine.config machine.scopes none code machine.fresh =
        Eval.runTop config machine.scopes none code machine.fresh)
    (context : Failure → Failure) :
    Indifferent config machine (evaluateInside context code) := by
  have taken :
      Eval.result machine.config machine.scopes code machine.fresh =
        Eval.result config machine.scopes code machine.fresh := by
    unfold Eval.result
    cases outcome : Eval.runTop machine.config machine.scopes none code
        machine.fresh with
    | ok _ run => rw [bind_of_ok outcome, bind_of_ok (alike.symm.trans outcome)]
    | error failure run =>
        rw [bind_of_error outcome, bind_of_error (alike.symm.trans outcome)]
  have here :
      Machine.evaluateInside context code machine =
        ending machine.config context
          (fun run => (machine.after run).truncate machine.stack.depth)
          (fun run => (machine.after run).truncate machine.stack.depth)
          (Eval.result machine.config machine.scopes code machine.fresh) :=
    evaluateInside_under context code machine machine.config
  unfold Indifferent
  rw [evaluateInside_under, here, taken]
  cases Eval.result config machine.scopes code machine.fresh with
  | ok value run => rfl
  | error failure run => rfl

end Indifferent

/-- No parameter of a function is the name of an entry. -/
def Uncaptured (machine : Machine) : Prop :=
  ∀ entry ∈ machine.entries, ∀ param ∈ entry.params, param ∉ machine.names

theorem Uncaptured.apart
    {machine : Machine}
    (uncaptured : machine.Uncaptured)
    (wellFormed : machine.WellFormed) :
    machine.scopes.Apart where
  globals := uncaptured
  frames := by
    intro frame member
    rw [wellFormed.frames] at member
    cases member

section Operations

variable
  {machine : Machine}
  (wellFormed : machine.WellFormed)
  (checked : machine.scopes.Checked)
  (uncaptured : machine.Uncaptured)
  (config : Config)
  (policy : NameResolution)
  (stack : Stack)

include wellFormed checked uncaptured

/-- Taking the value of an entry on its operands. -/
theorem indifferent_valueOf
    {entry : Entry}
    (member : entry ∈ machine.entries)
    {operands : List Value}
    (counted : operands.length = entry.operandCount) :
    Indifferent (config.resolving policy)
      (machine.on config (stack.pushAll (Eval.literals operands)))
      (valueOf entry) := by
  have alike :=
    Eval.alike_apply
      (Eval.runProgram_agree config policy config.maxCallDepth) checked
      wellFormed.linked (uncaptured.apart wellFormed)
        (checked.globals entry member)
      (wellFormed.entries entry member).closed (uncaptured entry member)
      operands.reverse stack.cells 0 0 (by simpa using counted)
  rw [Eval.above_reverse] at alike
  exact .bind (.runEntry alike) fun _ next _ =>
    .bind .pop fun _ _ _ => .ofExcept _

/-- Evaluating a checked program that refers to global names. -/
theorem indifferent_evaluateInside
    {code : Code}
    (accepted : Code.check code = .ok ())
    (isGlobal :
      ∀ cell ∈ code, ∀ name, cell.reference? = some name → name ∈ machine.names)
    (context : Failure → Failure) :
    Indifferent (config.resolving policy) (machine.on config stack)
      (evaluateInside context code) := by
  have apart := uncaptured.apart wellFormed
  have alike :=
    Eval.runProgram_agree config policy config.maxCallDepth machine.scopes
      none code checked
      wellFormed.linked apart accepted (.ofGlobals _ _ apart none isGlobal)
      [] stack.cells 0 0 rfl
  refine .evaluateInside ?_ context
  exact alike

theorem indifferent_scalar
    (name : String)
    (missing : Missing) :
    Indifferent (config.resolving policy) (machine.on config stack)
      (scalar name missing) := by
  refine .ofGet rfl ?_
  have sameEntry : (machine.on config stack).find? name = machine.find? name :=
    rfl
  rw [sameEntry]
  cases found : machine.find? name with
  | none =>
      cases missing with
      | abort => exact .throw _
      | useDefault => exact .pure none
  | some entry =>
      by_cases isScalar : entry.isScalar = true
      · simp only [if_pos isScalar]
        have counted : ([] : List Value).length = entry.operandCount :=
          (Entry.operandCount_of_isScalar isScalar).symm
        have value :=
          indifferent_valueOf wellFormed checked uncaptured config policy stack
            (wellFormed.mem_of_find? found).1 counted
        exact .bind value fun _ _ _ => .pure _
      · simp only [if_neg isScalar]
        exact .throw _

theorem indifferent_element
    {entry : Entry}
    (member : entry ∈ machine.entries)
    (indices : List Int64) :
    Indifferent (config.resolving policy) (machine.on config stack)
      (element entry indices) := by
  unfold element
  cases isArray : entry.grid? with
  | none => exact .throw _
  | some grid =>
      by_cases ranked : indices.length = grid.rank
      · simp only [if_pos ranked]
        have counted : (indices.map Value.int).length = entry.operandCount := by
          rw [Entry.operandCount_of_grid? isArray, List.length_map, ranked]
        rw [Eval.literals_ints]
        exact indifferent_valueOf wellFormed checked uncaptured config policy
          stack member counted
      · simp only [if_neg ranked]
        exact .throw _

theorem indifferent_call
    (name : String)
    (arguments : List Value) :
    Indifferent (config.resolving policy) (machine.on config stack)
      (call name arguments) := by
  unfold call
  cases Builtin.ofName? name with
  | some builtin =>
      refine .bind (.checkArity _ _ _) fun _ next accepted => ?_
      obtain ⟨counted, rfl⟩ := of_checkArity accepted
      refine indifferent_evaluateInside wellFormed checked uncaptured
        config policy stack (check_builtinCall counted) ?_ (Failure.inside name)
      intro cell isCell reference refers
      rcases List.mem_append.mp isCell with isArgument | isOperation
      · obtain ⟨value, -, rfl⟩ := List.mem_map.mp isArgument
        cases refers
      · obtain rfl := List.mem_singleton.mp isOperation
        cases refers
  | none =>
      refine .ofGet rfl ?_
      have sameEntry :
          (machine.on config stack).find? name = machine.find? name := rfl
      rw [sameEntry]
      cases found : machine.find? name with
      | none => exact .throw _
      | some entry =>
          have member := (wellFormed.mem_of_find? found).1
          dsimp only
          cases callable : entry.arity? with
          | none => exact .throw _
          | some arity =>
              refine .bind (.checkArity _ _ _) fun _ next accepted => ?_
              obtain ⟨same, rfl⟩ := of_checkArity accepted
              have counted : arguments.length = entry.operandCount :=
                same.symm.trans (Entry.operandCount_of_arity? callable).symm
              exact indifferent_valueOf wellFormed checked uncaptured config
                policy stack member counted

theorem indifferent_callNumber
    (name : String)
    (arguments : List Double) :
    Indifferent (config.resolving policy) (machine.on config stack)
      (callNumber name arguments) := by
  have called :=
    indifferent_call wellFormed checked uncaptured config policy stack name
      (arguments.map Value.double)
  refine .bind called fun result _ _ => ?_
  cases result.asDouble? with
  | some x => exact .pure x
  | none => exact .throw _

theorem indifferent_eval (source : String) :
    Indifferent (config.resolving policy) (machine.on config stack)
      (eval source) := by
  refine .ofGet rfl ?_
  have sameCode :
      (machine.on config stack).compile source = machine.compile source := rfl
  rw [sameCode]
  cases compiled : machine.compile source with
  | error error => exact .throw _
  | ok code =>
      exact indifferent_evaluateInside wellFormed checked uncaptured
        config policy stack (check_of_compile compiled)
        (wellFormed.mem_names_of_compile compiled) id

/--
The scalars written as constants are evaluated one after the other, each on the
same machine.
-/
theorem constantLines_resolving
    {scalars : List Entry}
    (scalar :
      ∀ entry ∈ scalars, entry ∈ machine.entries ∧ entry.isScalar = true) :
    ((machine.on (config.resolving policy) stack).constantLines scalars).1 =
      ((machine.on config stack).constantLines scalars).1 := by
  induction scalars with
  | nil => rfl
  | cons entry rest inductionHypothesis =>
      obtain ⟨member, isScalar⟩ := scalar entry List.mem_cons_self
      have counted : ([] : List Value).length = entry.operandCount :=
        (Entry.operandCount_of_isScalar isScalar).symm
      have value :
          valueOf entry (machine.on (config.resolving policy) stack) =
            relabel (config.resolving policy)
              (valueOf entry (machine.on config stack)) :=
        indifferent_valueOf wellFormed checked uncaptured config policy stack
          member counted
      have untouched :=
        untouched_valueOf wellFormed.idle checked config stack
          (checked.globals entry member) isScalar
      have others :=
        inductionHypothesis fun other isOther =>
          scalar other (List.mem_cons_of_mem entry isOther)
      simp only [constantLines, constantLine, value]
      unfold Untouched at untouched
      cases outcome : valueOf entry (machine.on config stack) with
      | ok result next =>
          rw [outcome] at untouched
          obtain rfl : next = machine.on config stack := untouched
          exact congrArg (_ :: ·) others
      | error error next =>
          rw [outcome] at untouched
          obtain rfl : next = machine.on config stack := untouched
          exact congrArg (_ :: ·) others

/-- Every question is answered alike. -/
theorem ask_resolving
    {query : Query}
    (belongs : query.Belongs machine) :
    (query.ask (machine.on (config.resolving policy) stack)).1 =
      (query.ask (machine.on config stack)).1 := by
  have answered
      (indifferent :
        Indifferent (config.resolving policy) (machine.on config stack)
          query.session) :
      (query.ask (machine.on (config.resolving policy) stack)).1 =
        (query.ask (machine.on config stack)).1 := by
    have same :
        query.session (machine.on (config.resolving policy) stack) =
          relabel (config.resolving policy)
            (query.session (machine.on config stack)) :=
      indifferent
    unfold Query.ask
    rw [same]
    cases query.session (machine.on config stack) <;> rfl
  cases query with
  | scalar name missing =>
      refine answered (.bind ?_ fun found _ _ => ?_)
      · exact indifferent_scalar wellFormed checked uncaptured config policy
          stack name missing
      · cases found with
        | some value => exact .pure _
        | none => exact .pure _
  | valueOf entry =>
      obtain ⟨member, isScalar⟩ := belongs
      have counted : ([] : List Value).length = entry.operandCount :=
        (Entry.operandCount_of_isScalar isScalar).symm
      refine answered (.bind ?_ fun _ _ _ => .pure _)
      exact indifferent_valueOf wellFormed checked uncaptured config policy
        stack member counted
  | element entry indices =>
      refine answered (.bind ?_ fun _ _ _ => .pure _)
      exact indifferent_element wellFormed checked uncaptured config policy
        stack belongs indices
  | call name arguments =>
      refine answered (.bind ?_ fun _ _ _ => .pure _)
      exact indifferent_call wellFormed checked uncaptured config policy stack
        name arguments
  | callNumber name arguments =>
      refine answered (.bind ?_ fun _ _ _ => .pure _)
      exact indifferent_callNumber wellFormed checked uncaptured config policy
        stack name arguments
  | eval source =>
      refine answered (.bind ?_ fun _ _ _ => .pure _)
      exact indifferent_eval wellFormed checked uncaptured config
        policy stack source
  | constants =>
      have scalars :
          ∀ entry ∈ machine.entries.filter Entry.isScalar,
            entry ∈ machine.entries ∧ entry.isScalar = true :=
        fun entry member => List.mem_filter.mp member
      have lines :=
        constantLines_resolving wellFormed checked uncaptured config
          policy stack scalars
      exact congrArg
        (fun lines => Except.ok (Answer.text (Text.unlines lines))) lines

end Operations

/--
Without capture the policy for names makes no difference.  On a loaded machine
none of whose functions has a parameter that is also a global name, under all
settings and with every stack, every question is answered with the same value,
or refused with the same error, whether names are looked up in every active
frame or among the parameters of the running function only.
-/
theorem policies_coincide_without_capture
    {machine : Machine}
    (loaded : machine.Loaded)
    (uncaptured : machine.Uncaptured)
    (config : Config)
    (stack : Stack)
    {query : Query}
    (belongs : query.Belongs machine) :
    (query.ask (machine.on (config.resolving .dynamic) stack)).1 =
      (query.ask (machine.on (config.resolving .lexical) stack)).1 :=
  (ask_resolving loaded.wellFormed loaded.checked uncaptured
    (config.resolving .dynamic) .lexical stack belongs).symm

/--
A function that calls another one, with a parameter of its own and a global
name.
-/
theorem policies_coincide_without_capture_call :
    ∃ (machine : Machine) (query : Query),
      machine.Loaded ∧ machine.Uncaptured ∧
      (query.ask (machine.on (Config.resolving {} .dynamic) .empty)).1 =
        .ok (.value (.int 15)) ∧
      (query.ask (machine.on (Config.resolving {} .dynamic) .empty)).1 =
        (query.ask (machine.on (Config.resolving {} .lexical) .empty)).1 := by
  have loads :
      load .replace "" "k = 2; g(y) = y + k; f(x) = g(x) * x;" (ofConfig {}) =
        .ok () (holding [⟨"k", .scalar [.literal (.int 2)]⟩,
          ⟨"g", .function ["y"]
            [.variable "y", .variable "k", .op (.binary .add)]⟩,
          ⟨"f", .function ["x"]
            [.variable "x", .call "g" 1, .variable "x",
              .op (.binary .mul)]⟩]) := by
    decide +kernel
  have loaded := (Loaded.start {}).load loads
  have uncaptured :
      Machine.Uncaptured (holding [⟨"k", .scalar [.literal (.int 2)]⟩,
        ⟨"g", .function ["y"]
          [.variable "y", .variable "k", .op (.binary .add)]⟩,
        ⟨"f", .function ["x"]
          [.variable "x", .call "g" 1, .variable "x",
            .op (.binary .mul)]⟩]) := by
    unfold Uncaptured
    decide
  refine ⟨_, .call "f" [.int 3], loaded, uncaptured, ?_, ?_⟩
  · decide +kernel
  · exact policies_coincide_without_capture loaded uncaptured {} .empty trivial

-- Where a parameter is a global name, the policies
-- differ: here on `x` in the body of `g`.
example :
    let machine := holding [⟨"x", .scalar [.literal (.int 1)]⟩,
      ⟨"g", .function ["y"] [.variable "x"]⟩,
      ⟨"f", .function ["x"] [.literal (.int 0), .call "g" 1]⟩]
    let query : Query := .call "f" [.int 5]
    (query.ask (machine.on (Config.resolving {} .dynamic) .empty)).1 =
      .ok (.value (.int 5)) ∧
      (query.ask (machine.on (Config.resolving {} .lexical) .empty)).1 =
        .ok (.value (.int 1)) := by
  constructor
  · decide +kernel
  · decide +kernel

end Machine

end Formulary
