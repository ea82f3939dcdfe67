import Formulary.Proofs.Eval.Cyclic
import Formulary.Proofs.Machine.ReadOnly
import Formulary.Proofs.Machine.Resolution

namespace Formulary

open Stateful

/-!
# Cyclic definitions of a machine

When names are resolved lexically, asking for an entry that leads to a cycle of
definitions always fails, and leaves the machine as it was, so that everything
else is answered as before.
-/

namespace Machine

/-- A question for the value of an entry, or for that of a call of it. -/
inductive Query.Evaluates (entry : Entry) : Query → Prop where
  | scalar (missing : Missing) :
      Evaluates entry (.scalar entry.name missing)
  | valueOf (isScalar : entry.isScalar = true) :
      Evaluates entry (.valueOf entry)
  | call (arguments : List Value) :
      Evaluates entry (.call entry.name arguments)
  | callNumber (arguments : List Double) :
      Evaluates entry (.callNumber entry.name arguments)

/-- An operation that fails on a machine. -/
def Refuses (machine : Machine) (action : Session α) : Prop :=
  ∀ a next, action machine ≠ .ok a next

namespace Refuses

variable {machine : Machine}

/-- What comes first is refused. -/
theorem ofFirst
    {first : Session α}
    (refuses : machine.Refuses first)
    (rest : α → Session β) :
    machine.Refuses (first >>= rest) := by
  intro b last succeeds
  obtain ⟨a, next, firstSucceeds, -⟩ := bind_eq_ok.mp succeeds
  exact refuses a next firstSucceeds

/-- Running an entry that never succeeds is refused. -/
theorem runEntry
    {entry : Entry}
    (never :
      Eval.NeverSucceeds
        (Eval.apply machine.config (Eval.runTop machine.config)
          machine.scopes entry)) :
    machine.Refuses (runEntry entry) := by
  intro _ next succeeds
  simp only [Machine.runEntry, bind_get] at succeeds
  split at succeeds
  · cases succeeds
  · unfold execute at succeeds
    split at succeeds
    · rename_i outcome
      exact never _ _ _ outcome
    · cases succeeds

theorem valueOf
    {entry : Entry}
    (never :
      Eval.NeverSucceeds
        (Eval.apply machine.config (Eval.runTop machine.config)
          machine.scopes entry)) :
    machine.Refuses (valueOf entry) :=
  .ofFirst (.runEntry never) _

end Refuses

section Cyclic

variable
  {machine : Machine}
  (loaded : machine.Loaded)
  {config : Config}
  (lexical : config.nameResolution = .lexical)
  (stack : Stack)
  {entry : Entry}
  (member : entry ∈ machine.entries)
  (cyclic : entry.Cyclic machine.scopes.globals)

include loaded lexical cyclic

/-- The value of an entry that leads to a cycle is refused, on any stack. -/
theorem refuses_valueOf : (machine.on config stack).Refuses (valueOf entry) :=
  .valueOf (Eval.neverSucceeds_of_cyclic lexical
    loaded.wellFormed.distinct _ cyclic rfl)

include member

theorem refuses_scalar (missing : Missing) :
    (machine.on config stack).Refuses (scalar entry.name missing) := by
  have found : (machine.on config stack).find? entry.name = some entry :=
    loaded.wellFormed.found entry member
  intro value next succeeds
  simp only [scalar, bind_get, found] at succeeds
  split at succeeds
  · exact Refuses.ofFirst (refuses_valueOf loaded lexical stack cyclic)
      _ _ _ succeeds
  · cases succeeds

theorem refuses_call (arguments : List Value) :
    (machine.on config stack).Refuses (call entry.name arguments) := by
  have notBuiltin := (loaded.wellFormed.entries entry member).notBuiltin
  have found : (machine.on config stack).find? entry.name = some entry :=
    loaded.wellFormed.found entry member
  intro value next succeeds
  simp only [call, notBuiltin, bind_get, found] at succeeds
  cases callable : entry.arity? with
  | none =>
      rw [callable] at succeeds
      cases succeeds
  | some arity =>
      rw [callable] at succeeds
      by_cases counted : arity = arguments.length
      · simp only [checkArity, if_pos counted] at succeeds
        exact refuses_valueOf loaded lexical
          (stack.pushAll (arguments.map Cell.literal)) cyclic
          value next succeeds
      · simp only [checkArity, if_neg counted] at succeeds
        cases succeeds

/--
Every question for the value of an entry that leads to a cycle is refused.
-/
theorem refuses_session
    {query : Query}
    (evaluates : query.Evaluates entry) :
    (machine.on config stack).Refuses query.session := by
  cases evaluates with
  | scalar missing =>
      exact .ofFirst
        (refuses_scalar loaded lexical stack member cyclic missing) _
  | valueOf isScalar =>
      exact .ofFirst (refuses_valueOf loaded lexical stack cyclic) _
  | call arguments =>
      exact .ofFirst
        (refuses_call loaded lexical stack member cyclic arguments) _
  | callNumber arguments =>
      exact .ofFirst
        (.ofFirst (refuses_call loaded lexical stack member cyclic _) _) _

end Cyclic

/-- What is asked for the value of an entry of the machine belongs to it. -/
theorem Query.Evaluates.belongs
    {machine : Machine}
    {entry : Entry}
    (member : entry ∈ machine.entries)
    {query : Query}
    (evaluates : query.Evaluates entry) :
    query.Belongs machine := by
  cases evaluates with
  | valueOf isScalar => exact ⟨member, isScalar⟩
  | scalar | call | callNumber => trivial

/-- A question that is refused is answered by an error. -/
theorem Refuses.ask
    {machine : Machine}
    {query : Query}
    (refuses : machine.Refuses query.session) :
    ∃ error, (query.ask machine).1 = .error error := by
  unfold Query.ask
  cases outcome : query.session machine with
  | ok answer next => exact (refuses answer next outcome).elim
  | error error next => exact ⟨error, rfl⟩

/--
Cyclic definitions have no value.  When names are resolved lexically, every
question for the value of an entry that leads to a cycle is refused on every
loaded machine, whatever the arguments, the limits and the stack are, and what
is asked afterwards is answered as if it had not been asked.
-/
theorem cyclic_definitions_refused
    {machine : Machine}
    (loaded : machine.Loaded)
    {config : Config}
    (lexical : config.nameResolution = .lexical)
    (stack : Stack)
    {entry : Entry}
    (member : entry ∈ machine.entries)
    (cyclic : entry.Cyclic machine.scopes.globals)
    {query : Query}
    (evaluates : query.Evaluates entry) :
    ∃ error, ∀ later : List Query,
      Query.askAll (machine.on config stack) (query :: later) =
        (.error error, machine.on config stack) ::
          Query.askAll (machine.on config stack) later := by
  obtain ⟨error, refused⟩ :=
    Refuses.ask (refuses_session loaded lexical stack member cyclic evaluates)
  have unchanged :=
    ask_untouched loaded.callDepth loaded.checked config stack
      (evaluates.belongs member)
  refine ⟨error, fun later => ?_⟩
  simp only [Query.askAll, unchanged, List.cons.injEq, and_true]
  exact Prod.ext refused unchanged

/-- A scalar that calls a function that reads the scalar has no value. -/
theorem cyclic_definitions_refused_call :
    ∃ machine : Machine,
      load .replace "" "x = f(1); f(y) = x + y;"
        (ofConfig { nameResolution := .lexical }) =
          .ok () machine ∧
        ∃ error, ∀ later : List Query,
          Query.askAll machine (.scalar "x" .abort :: later) =
            (.error error, machine) :: Query.askAll machine later := by
  have loads : ∃ machine : Machine,
      load .replace "" "x = f(1); f(y) = x + y;"
        (ofConfig { nameResolution := .lexical }) =
          .ok () machine ∧
        machine.config = { nameResolution := .lexical } ∧
        machine.entries =
          [⟨"x", .scalar [.literal (.int 1), .call "f" 1]⟩,
            ⟨"f", .function ["y"]
              [.variable "x", .variable "y", .op (.binary .add)]⟩] := by
    refine ⟨{ ofConfig { nameResolution := .lexical } with
      scopes := ⟨⟨_⟩, []⟩ }, ?_, rfl, rfl⟩
    decide +kernel
  obtain ⟨machine, succeeds, config, entries⟩ := loads
  have declared :
      machine.scopes.globals.entries =
        [⟨"x", .scalar [.literal (.int 1), .call "f" 1]⟩,
          ⟨"f", .function ["y"]
            [.variable "x", .variable "y", .op (.binary .add)]⟩] :=
    entries
  have calls :
      Entry.Uses machine.scopes.globals
        ⟨"x", .scalar [.literal (.int 1), .call "f" 1]⟩
        ⟨"f", .function ["y"]
          [.variable "x", .variable "y", .op (.binary .add)]⟩ :=
    ⟨.inl rfl, .inr rfl, by simp [declared], _, List.mem_cons_self,
      .inr ⟨1, by simp⟩⟩
  have reads :
      Entry.Uses machine.scopes.globals
        ⟨"f", .function ["y"]
          [.variable "x", .variable "y", .op (.binary .add)]⟩
        ⟨"x", .scalar [.literal (.int 1), .call "f" 1]⟩ :=
    ⟨.inr rfl, .inl rfl, by simp [declared], _, List.mem_cons_self,
      .inl ⟨by simp, by decide⟩⟩
  have loaded := (Loaded.start _).load succeeds
  have lexical : machine.config.nameResolution = .lexical := by
    rw [config]
  refine ⟨machine, succeeds, ?_⟩
  exact cyclic_definitions_refused loaded lexical machine.stack
    (by rw [entries]; exact List.mem_cons_self)
    ⟨_, .refl, .head calls (.single reads)⟩ (.scalar .abort)

end Machine

end Formulary
