import Formulary.Proofs.Load.Fitted
import Formulary.Proofs.Machine.Resolution

namespace Formulary

open Stateful

/-!
# Kinds, arities and ranks are settled when a source is compiled

On a machine whose loads change no signature, and with names resolved lexically,
every reference that an evaluation reaches finds an entry of the kind, arity or
rank it has been compiled for.  No evaluation fails for using a name as what it
is not, or with the wrong number of arguments or indices; what is left are the
faults of values and of limits.
-/

namespace Machine

/--
Machines loaded from one source, and then from others that change no signature.
-/
inductive Steady : Machine → Prop where
  | replace
      {file source : String}
      {machine next : Machine}
      (before : machine.Loaded)
      (succeeds : load .replace file source machine = .ok () next) :
      Steady next
  | extend
      {file source : String}
      {machine next : Machine}
      (before : Steady machine)
      (succeeds : load .extend file source machine = .ok () next)
      (kept :
        ∀ name signature,
          machine.scopes.globals.signature? name = some signature →
          next.scopes.globals.signature? name = some signature) :
      Steady next

theorem Steady.loaded
    {machine : Machine}
    (steady : machine.Steady) :
    machine.Loaded := by
  induction steady with
  | replace before succeeds => exact before.load succeeds
  | extend before succeeds kept inductionHypothesis =>
      exact inductionHypothesis.load succeeds

/--
Once a source is loaded every reference fits, when those of the entries it
extends do.
-/
theorem fitted_of_load
    {mode : LoadMode}
    {file source : String}
    {machine next : Machine}
    (loaded : machine.Loaded)
    (succeeds : load mode file source machine = .ok () next)
    (old :
      ∀ entry ∈ (staging mode machine).entries,
        entry.Fits next.scopes.globals.signature?) :
    next.scopes.Fitted := by
  obtain ⟨program, signatures, -, loadedFrom⟩ := loadedFrom_of_load succeeds
  have distinct : (staging mode machine).scopes.globals.names.Nodup := by
    cases mode with
    | replace => exact List.nodup_nil
    | extend => exact loaded.wellFormed.distinct
  have described : signatures.get? = next.scopes.globals.signature? :=
    funext
      (loadedFrom.effects.describe loadedFrom.declared (.ofEntries distinct))
  refine ⟨?_, by simp [(loaded.load succeeds).frames]⟩
  rw [← described] at old ⊢
  exact loadedFrom.effects.preserve
    (fun bindings => ∀ entry ∈ bindings.entries, entry.Fits _)
    (fun statement _ _ _ effect => effect.fits) old

theorem Steady.fitted
    {machine : Machine}
    (steady : machine.Steady) :
    machine.scopes.Fitted := by
  induction steady with
  | replace before succeeds => exact fitted_of_load before succeeds nofun
  | extend before succeeds kept inductionHypothesis =>
      refine fitted_of_load before.loaded succeeds fun entry member => ?_
      exact (inductionHypothesis.globals entry member).mono kept

/-- The programs with which evaluations of entries and of expressions start. -/
inductive Starts (machine : Machine) : Eval.Point → Prop where
  | entry
      {entry : Entry}
      (member : entry ∈ machine.entries)
      {operands : List Value}
      (counted : operands.length = entry.operandCount)
      {levels : Nat}
      (left : machine.config.maxCallDepth = levels + 1)
      {point : Eval.Point}
      (enters :
        Eval.Enters levels machine.scopes entry.definition
          ⟨machine.stack.pushAll (Eval.literals operands), 0, 0⟩ point) :
      Starts machine point
  | expression
      {source : String}
      {code : Code}
      (compiled : machine.compile source = .ok code)
      {levels : Nat}
      (left : machine.config.maxCallDepth = levels + 1) :
      Starts machine (.start levels machine.scopes none code machine.fresh)

/--
An operation that fails on a machine, if it does, because of values or limits.
-/
def FailsOfValues (machine : Machine) (action : Session α) : Prop :=
  ∀ failure next,
    action machine = .error (.runtime failure) next → failure.fault.OfValues

section Evaluations

variable
  {machine : Machine}
  (steady : machine.Steady)
  {config : Config}
  (lexical : config.nameResolution = .lexical)
  (stack : Stack)

include steady lexical

/-- An entry on its operands. -/
theorem fitted_of_enters
    {entry : Entry}
    (member : entry ∈ machine.entries)
    {operands : List Value}
    (counted : operands.length = entry.operandCount)
    {levels : Nat}
    {point : Eval.Point}
    (enters :
      Eval.Enters levels machine.scopes entry.definition
        (Eval.above operands.reverse stack.cells 0 0) point) :
    point.Fitted config := by
  have holds : Eval.Holds entry.operandCount
      (Eval.above operands.reverse stack.cells 0 0) :=
    ⟨operands.reverse, stack.cells, 0, 0, by rw [List.length_reverse, counted],
      rfl⟩
  exact .enters lexical steady.loaded.checked steady.fitted (.inr member) holds
    (Nat.le_refl _) enters

omit lexical in
/-- Every reference of a compiled expression fits. -/
theorem fits_of_compile
    {source : String}
    {code : Code}
    (compiled : machine.compile source = .ok code) :
    ∀ cell ∈ code, cell.Fits machine.scopes.globals.signature? [] := by
  obtain ⟨parsed, expression⟩ := expr_of_compile compiled
  have described :
      (Signatures.ofEntries machine.entries).get? =
        machine.scopes.globals.signature? :=
    funext (Signatures.Describe.ofEntries steady.loaded.wellFormed.distinct)
  rw [← described]
  exact Compile.fits_of_expr expression

/-- A compiled expression. -/
theorem fitted_of_compile
    {source : String}
    {code : Code}
    (compiled : machine.compile source = .ok code)
    (levels : Nat)
    (run : Run) :
    (Eval.Point.start levels machine.scopes none code run).Fitted config :=
  .start steady.loaded.checked steady.fitted (check_of_compile compiled)
    (Eval.suits_outside lexical (fits_of_compile steady compiled)) levels run

/-- Every program with which an evaluation starts. -/
theorem Starts.fitted
    {point : Eval.Point}
    (starts : (machine.on config stack).Starts point) :
    point.Fitted config := by
  cases starts with
  | entry member counted left enters =>
      simp only [on, ← Eval.above_reverse] at enters
      exact fitted_of_enters steady lexical stack member counted enters
  | expression compiled left =>
      exact fitted_of_compile steady lexical compiled _ _

omit steady in
/--
An evaluation that reaches only references that suit fails because of its
values.
-/
theorem ofValues_of_fails
    {point : Eval.Point}
    (fitted : point.Fitted config)
    {fault : Fault}
    (fails : point.Fails config fault)
    (ordinary : fault.Ordinary) :
    fault.OfValues := by
  rcases Eval.located config point.levels _ _ _ _ fault fails with
      (ofValues | missing) | ⟨later, reached, unsuited⟩
  · exact ofValues
  · exact absurd missing ordinary.2
  · exact absurd (fitted.reaches lexical reached).suited unsuited

theorem failsOfValues_runEntry
    {entry : Entry}
    (member : entry ∈ machine.entries)
    {operands : List Value}
    (counted : operands.length = entry.operandCount) :
    (machine.on config (stack.pushAll (Eval.literals operands))).FailsOfValues
      (runEntry entry) := by
  intro failure next fails
  have wellFormed := steady.loaded.wellFormed
  have ordinary :=
    orderlyOn_runEntry steady.loaded.checked wellFormed.linked config stack
      (steady.loaded.checked.globals entry member)
      (wellFormed.entries entry member).closed counted
      failure next fails
  obtain ⟨run, failsInside⟩ := apply_of_runEntry config stack counted fails
  rcases Eval.fails_of_apply failsInside with
      (ofValues | missing) | ⟨levels, point, left, enters, pointFails⟩
  · exact ofValues
  · exact absurd missing ordinary.2
  · exact ofValues_of_fails lexical
      (fitted_of_enters steady lexical stack member counted enters)
      pointFails ordinary

theorem failsOfValues_valueOf
    {entry : Entry}
    (member : entry ∈ machine.entries)
    {operands : List Value}
    (counted : operands.length = entry.operandCount) :
    (machine.on config (stack.pushAll (Eval.literals operands))).FailsOfValues
      (valueOf entry) := by
  intro failure next fails
  have wellFormed := steady.loaded.wellFormed
  have failsInside :=
    runEntry_of_valueOf wellFormed.idle steady.loaded.checked config stack
      (steady.loaded.checked.globals entry member) counted fails
  exact failsOfValues_runEntry steady lexical stack member counted failure
    next failsInside

theorem failsOfValues_scalar
    {entry : Entry}
    (member : entry ∈ machine.entries)
    (isScalar : entry.isScalar = true)
    (missing : Missing) :
    (machine.on config stack).FailsOfValues (scalar entry.name missing) := by
  have found : (machine.on config stack).find? entry.name = some entry :=
    steady.loaded.wellFormed.found entry member
  have counted : ([] : List Value).length = entry.operandCount :=
    (Entry.operandCount_of_isScalar isScalar).symm
  intro failure next fails
  simp only [scalar, bind_get, found, isScalar, if_true] at fails
  rcases bind_eq_error.mp fails with
      failsInside | ⟨value, later, succeeds, ended⟩
  · exact failsOfValues_valueOf steady lexical stack member counted failure
      next failsInside
  · cases ended

theorem failsOfValues_element
    {entry : Entry}
    (member : entry ∈ machine.entries)
    {indices : List Int64}
    (isArray : entry.signature = .array indices.length) :
    (machine.on config stack).FailsOfValues (element entry indices) := by
  have pushed := Eval.literals_ints indices
  intro failure next fails
  obtain ⟨name, definition⟩ := entry
  cases definition with
  | array grid =>
      have ranked : grid.rank = indices.length := by
        simpa [Entry.signature] using isArray
      simp only [element, Entry.grid?, if_pos ranked.symm, pushed] at fails
      exact failsOfValues_valueOf steady lexical stack member
        (by simp [Entry.operandCount, ranked]) failure next fails
  | scalar | function | curve => cases isArray

theorem failsOfValues_call
    {entry : Entry}
    (member : entry ∈ machine.entries)
    {arguments : List Value}
    (callable : entry.arity? = some arguments.length) :
    (machine.on config stack).FailsOfValues (call entry.name arguments) := by
  have wellFormed := steady.loaded.wellFormed
  have notBuiltin := (wellFormed.entries entry member).notBuiltin
  have found : (machine.on config stack).find? entry.name = some entry :=
    wellFormed.found entry member
  have counted : arguments.length = entry.operandCount :=
    (Entry.operandCount_of_arity? callable).symm
  intro failure next fails
  simp only [call, notBuiltin, bind_get, found, callable, checkArity, if_true,
    bind_pure] at fails
  exact failsOfValues_valueOf steady lexical stack member counted
    failure next fails

theorem failsOfValues_eval (source : String) :
    (machine.on config stack).FailsOfValues (eval source) := by
  intro failure next fails
  have wellFormed := steady.loaded.wellFormed
  have ordinary :=
    orderlyOn_eval wellFormed steady.loaded.checked config stack source
      failure next fails
  cases compiled : machine.compile source with
  | error error =>
      have same : (machine.on config stack).compile source = .error error :=
        compiled
      simp only [eval, bind_get, same] at fails
      cases fails
  | ok code =>
      have same : (machine.on config stack).compile source = .ok code :=
        compiled
      simp only [eval, bind_get, same] at fails
      obtain ⟨cause, run, rfl, fromProgram⟩ :=
        runTop_of_evaluateInside steady.loaded.checked config stack
          (check_of_compile compiled) fails
      rcases Eval.fails_of_runProgram fromProgram with
          (ofValues | missing) | ⟨levels, left, pointFails⟩
      · exact ofValues
      · exact absurd missing ordinary.2
      · exact ofValues_of_fails lexical
          (fitted_of_compile steady lexical compiled _ _) pointFails ordinary

end Evaluations

/--
Kind, arity and rank are errors of compilation only.  On a machine whose loads
change no signature, under any settings that resolve names lexically and on any
stack: every reference that the evaluation of an entry or of an expression
reaches finds an entry of exactly the signature it is made for, and all
evaluations that fail do so because of values or limits.
-/
theorem kinds_settled_when_compiled
    {machine : Machine}
    (steady : machine.Steady)
    {config : Config}
    (lexical : config.nameResolution = .lexical)
    (stack : Stack) :
    (∀ start point,
      (machine.on config stack).Starts start → Eval.Reaches config start point →
      point.Suited config) ∧
    (∀ entry ∈ machine.entries,
      (entry.isScalar = true → ∀ missing,
        (machine.on config stack).FailsOfValues (scalar entry.name missing)) ∧
      (∀ indices, entry.signature = .array indices.length →
        (machine.on config stack).FailsOfValues (element entry indices)) ∧
      (∀ arguments, entry.arity? = some arguments.length →
        (machine.on config stack).FailsOfValues (call entry.name arguments)) ∧
      ∀ operands : List Value, operands.length = entry.operandCount →
        (machine.on config
          (stack.pushAll (Eval.literals operands))).FailsOfValues
          (runEntry entry)) ∧
    ∀ source, (machine.on config stack).FailsOfValues (eval source) := by
  refine ⟨?_, ?_, ?_⟩
  · intro start point starts reached
    exact ((starts.fitted steady lexical stack).reaches lexical reached).suited
  · intro entry member
    refine ⟨?_, ?_, ?_, ?_⟩
    · exact failsOfValues_scalar steady lexical stack member
    · intro indices isArray
      exact failsOfValues_element steady lexical stack member isArray
    · intro arguments callable
      exact failsOfValues_call steady lexical stack member callable
    · intro operands counted
      exact failsOfValues_runEntry steady lexical stack member counted
  · exact failsOfValues_eval steady lexical stack

/--
A parameter with the name of a function, which is loaded again with as many
parameters.
-/
theorem kinds_settled_when_compiled_parameter :
    ∃ machine : Machine, machine.Steady ∧
      machine.config.nameResolution = .lexical ∧
      machine.entries =
        [⟨"f", .function ["z"]
            [.literal (.int 8), .variable "z", .op (.binary .div)]⟩,
          ⟨"g", .function ["f"]
            [.variable "f", .literal (.int 1), .op (.binary .add)]⟩,
          ⟨"y", .scalar [.literal (.int 0), .call "f" 1, .call "g" 1]⟩] ∧
      (∃ next, scalar "y" .abort machine =
        .error (.runtime ⟨.arithmetic .divisionByZero, ["y", "f"]⟩) next) ∧
      machine.FailsOfValues (scalar "y" .abort) := by
  have declares :
      load .replace "" "f(x) = x; g(f) = f + 1; y = g(f(0));"
          (ofConfig { nameResolution := .lexical }) =
        .ok () ((holding [⟨"f", .function ["x"] [.variable "x"]⟩,
          ⟨"g", .function ["f"]
            [.variable "f", .literal (.int 1), .op (.binary .add)]⟩,
          ⟨"y", .scalar [.literal (.int 0), .call "f" 1, .call "g" 1]⟩]).on
            { nameResolution := .lexical } Stack.empty) := by
    decide +kernel
  have redeclares :
      load .extend "" "f(z) = 8 / z;"
          ((holding [⟨"f", .function ["x"] [.variable "x"]⟩,
            ⟨"g", .function ["f"]
              [.variable "f", .literal (.int 1), .op (.binary .add)]⟩,
            ⟨"y", .scalar [.literal (.int 0), .call "f" 1, .call "g" 1]⟩]).on
              { nameResolution := .lexical } Stack.empty) =
        .ok () ((holding [
          ⟨"f", .function ["z"]
            [.literal (.int 8), .variable "z", .op (.binary .div)]⟩,
          ⟨"g", .function ["f"]
            [.variable "f", .literal (.int 1), .op (.binary .add)]⟩,
          ⟨"y", .scalar [.literal (.int 0), .call "f" 1, .call "g" 1]⟩]).on
            { nameResolution := .lexical } Stack.empty) := by
    decide +kernel
  have steady := (Steady.replace (.start _) declares).extend redeclares (by
    intro name signature known
    by_cases isF : "f" = name
    · subst isF
      exact known
    · simpa [holding, on, Bindings.signature?, Bindings.get?, isF] using known)
  refine ⟨_, steady, rfl, rfl, ⟨_, rfl⟩, ?_⟩
  have lexical :
      ({ nameResolution := .lexical } : Config).nameResolution = .lexical := rfl
  have settled :=
    (kinds_settled_when_compiled steady lexical Stack.empty).2.1
      ⟨"y", .scalar [.literal (.int 0), .call "f" 1, .call "g" 1]⟩ (by decide)
  exact settled.1 rfl .abort

end Machine

end Formulary
