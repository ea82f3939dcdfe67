import Formulary.Machine.Report
import Formulary.Proofs.Eval.CallDepth
import Formulary.Proofs.Load.WellFormed
import Formulary.Proofs.Snapshot.Entry

namespace Formulary

open Stateful

/-!
# The invariant of machines

Whatever is done with a machine, and whether it succeeds or fails, the machine
stays well-formed: between operations no function is active, and its entries are
what the loader guarantees.  Evaluations change nothing but the stack, a load
that fails changes nothing, and a load that succeeds establishes the invariant
for the entries it stores.
-/

namespace Machine

/-- What holds of a machine between operations. -/
structure WellFormed (machine : Machine) : Prop where
  frames : machine.scopes.frames = []
  idle : machine.callDepth = 0
  distinct : machine.names.Nodup
  found : ∀ entry ∈ machine.entries, machine.find? entry.name = some entry
  entries : ∀ entry ∈ machine.entries,
    entry.WellFormed machine.config (· ∈ machine.names)

/--
An entry is found under its own name, when names are distinct and no function is
active.
-/
theorem find?_of_mem
    {machine : Machine}
    (frames : machine.scopes.frames = [])
    (distinct : machine.names.Nodup)
    {entry : Entry}
    (member : entry ∈ machine.entries) :
    machine.find? entry.name = some entry := by
  have inGlobals := Bindings.get?_of_mem distinct member
  simp [find?, Scopes.find?, frames, inGlobals]

/-- A machine without entries is well-formed. -/
theorem wellFormed_ofConfig
    (config : Config) :
    (ofConfig config).WellFormed where
  frames := rfl
  idle := rfl
  distinct := List.nodup_nil
  found := by
    intro entry member
    cases member
  entries := by
    intro entry member
    cases member

/--
Nothing has changed but the stack and what is printed, and no program is left
running.
-/
structure Undisturbed (machine next : Machine) : Prop where
  scopes : next.scopes = machine.scopes
  config : next.config = machine.config
  idle : machine.callDepth = 0 → next.callDepth = 0

namespace Undisturbed

theorem refl (machine : Machine) : machine.Undisturbed machine :=
  ⟨rfl, rfl, id⟩

theorem trans
    {first second third : Machine}
    (before : first.Undisturbed second)
    (after : second.Undisturbed third) :
    first.Undisturbed third :=
  ⟨after.scopes.trans before.scopes, after.config.trans before.config,
    fun idle => after.idle (before.idle idle)⟩

/-- A machine that is not disturbed stays well-formed. -/
theorem wellFormed
    {machine next : Machine}
    (undisturbed : machine.Undisturbed next)
    (wellFormed : machine.WellFormed) :
    next.WellFormed := by
  have sameEntries : next.entries = machine.entries := by
    simp only [Machine.entries, undisturbed.scopes]
  have sameNames : next.names = machine.names := by
    simp only [names, undisturbed.scopes]
  exact
    { frames := undisturbed.scopes ▸ wellFormed.frames
      idle := undisturbed.idle wellFormed.idle
      distinct := sameNames ▸ wellFormed.distinct
      found := by
        intro entry member
        rw [find?, undisturbed.scopes]
        exact wellFormed.found entry (sameEntries ▸ member)
      entries := by
        intro entry member
        rw [undisturbed.config, sameNames]
        exact wellFormed.entries entry (sameEntries ▸ member) }

end Undisturbed

/-- An operation that changes nothing but the stack, whether it fails or not. -/
abbrev Harmless (action : Session α) : Prop :=
  Keeps Undisturbed action

theorem harmless_bind
    {action : Session α}
    {rest : α → Session β}
    (first : Harmless action)
    (second : ∀ a, Harmless (rest a)) :
    Harmless (action >>= rest) := by
  refine Keeps.bind ?_ first second
  intro _ _ _ before after
  exact before.trans after

theorem harmless_pure (a : α) : Harmless (pure a : Session α) :=
  fun machine => .refl machine

theorem harmless_throw (error : Error) : Harmless (throw error : Session α) :=
  fun machine => .refl machine

theorem harmless_ofExcept
    (result : Except Fault α) :
    Harmless (ofExcept result) := by
  cases result with
  | ok a => exact harmless_pure a
  | error fault => exact harmless_throw _

theorem harmless_push (cell : Cell) : Harmless (push cell) :=
  fun _ => ⟨rfl, rfl, id⟩

theorem harmless_pushAll (cells : List Cell) : Harmless (pushAll cells) :=
  fun _ => ⟨rfl, rfl, id⟩

theorem harmless_pop : Harmless pop := by
  intro machine
  cases popped : machine.stack.pop with
  | ok result =>
      simp only [pop, bind_get, popped]
      exact ⟨rfl, rfl, id⟩
  | error fault =>
      simp only [pop, bind_get, popped]
      exact .refl machine

theorem harmless_execute
    {action : Eval Unit}
    (balanced : Eval.Balanced action)
    (base : Nat) :
    Harmless (execute action base) := by
  intro machine
  have ends := balanced machine.fresh
  unfold execute
  cases outcome : action machine.fresh with
  | ok _ run =>
      rw [outcome] at ends
      exact ⟨rfl, rfl, fun _ => ends⟩
  | error failure run =>
      rw [outcome] at ends
      exact ⟨rfl, rfl, fun _ => ends⟩

theorem undisturbed_evaluate
    (code : Code)
    (machine : Machine) :
    machine.Undisturbed (final (evaluate code machine)) := by
  have balanced :
      Eval.Balanced (do
        Eval.runTop machine.config machine.scopes none code
        let cell ← Eval.pop
        Eval.ofExcept cell.result : Eval Value) :=
    Eval.balanced_bind (Eval.runProgram_balances _ _ _ _ _) fun _ =>
      Eval.balanced_bind Eval.balanced_pop fun _ => Eval.balanced_ofExcept _
  have ends := balanced machine.fresh
  unfold evaluate
  simp only
  split
  · rename_i value run outcome
    rw [outcome] at ends
    exact ⟨rfl, rfl, fun _ => ends⟩
  · rename_i failure run outcome
    rw [outcome] at ends
    exact ⟨rfl, rfl, fun _ => ends⟩

theorem harmless_evaluateInside
    (context : Failure → Failure)
    (code : Code) :
    Harmless (evaluateInside context code) := by
  intro machine
  have evaluated := undisturbed_evaluate code machine
  unfold evaluateInside
  cases outcome : evaluate code machine with
  | ok value next =>
      rw [outcome] at evaluated
      exact evaluated
  | error failure next =>
      rw [outcome] at evaluated
      exact evaluated

theorem harmless_runEntry (entry : Entry) : Harmless (runEntry entry) := by
  refine Keeps.ofGet fun machine => ?_
  simp only
  split
  · exact harmless_throw _
  · exact harmless_execute
      (Eval.balanced_apply (Eval.runProgram_balances _ _) _ entry) _

theorem harmless_runCode (code : Code) : Harmless (runCode code) := by
  unfold runCode
  split
  · exact harmless_throw _
  · exact Keeps.ofGet fun machine =>
      harmless_execute (Eval.runProgram_balances _ _ _ _ _) _

theorem harmless_valueOf (entry : Entry) : Harmless (valueOf entry) :=
  harmless_bind (harmless_runEntry entry) fun _ =>
    harmless_bind harmless_pop fun _ => harmless_ofExcept _

theorem harmless_scalar
    (name : String)
    (missing : Missing) :
    Harmless (scalar name missing) := by
  refine Keeps.ofGet fun machine => ?_
  split
  · cases missing with
    | abort => exact harmless_throw _
    | useDefault => exact harmless_pure none
  · rename_i entry found
    split
    · exact harmless_bind (harmless_valueOf entry) fun _ => harmless_pure _
    · exact harmless_throw _

theorem harmless_element
    (entry : Entry)
    (indices : List Int64) :
    Harmless (element entry indices) := by
  unfold element
  split
  · exact harmless_throw _
  · split
    · exact harmless_bind (harmless_pushAll _) fun _ => harmless_valueOf entry
    · exact harmless_throw _

theorem harmless_checkArity
    (name : String)
    (expected found : Nat) :
    Harmless (checkArity name expected found) := by
  unfold checkArity
  split
  · exact harmless_pure ()
  · exact harmless_throw _

theorem harmless_call
    (name : String)
    (arguments : List Value) :
    Harmless (call name arguments) := by
  unfold call
  split
  · exact harmless_bind (harmless_checkArity _ _ _) fun _ =>
      harmless_evaluateInside _ _
  · refine Keeps.ofGet fun machine => ?_
    split
    · exact harmless_throw _
    · rename_i entry found
      split
      · exact harmless_throw _
      · exact harmless_bind (harmless_checkArity _ _ _) fun _ =>
          harmless_bind (harmless_pushAll _) fun _ => harmless_valueOf entry

theorem harmless_callNumber
    (name : String)
    (arguments : List Double) :
    Harmless (callNumber name arguments) := by
  refine harmless_bind (harmless_call _ _) fun result => ?_
  split
  · exact harmless_pure _
  · exact harmless_throw _

theorem harmless_eval (source : String) : Harmless (eval source) := by
  refine Keeps.ofGet fun machine => ?_
  split
  · exact harmless_throw _
  · exact harmless_evaluateInside id _

/-- Writing the constants evaluates scalars one after the other. -/
theorem undisturbed_constantLines
    (machine : Machine)
    (scalars : List Entry) :
    machine.Undisturbed (machine.constantLines scalars).2 := by
  induction scalars generalizing machine with
  | nil => exact .refl machine
  | cons entry rest inductionHypothesis =>
      have first : machine.Undisturbed (constantLine entry machine).2 := by
        have evaluated := harmless_valueOf entry machine
        unfold constantLine
        cases outcome : valueOf entry machine with
        | ok value next =>
            rw [outcome] at evaluated
            exact evaluated
        | error error next =>
            rw [outcome] at evaluated
            exact evaluated
      exact first.trans (inductionHypothesis _)

/-- A load that fails leaves the machine as it was. -/
theorem eq_of_load_error
    {mode : LoadMode}
    {file source : String}
    {machine next : Machine}
    {error : Error}
    (fails : load mode file source machine = .error error next) :
    next = machine := by
  unfold load at fails
  split at fails
  · cases fails
    rfl
  · split at fails
    · cases fails
    · cases fails
      rfl

/-- What a load starts from is well-formed. -/
theorem WellFormed.staging
    {machine : Machine}
    (wellFormed : machine.WellFormed)
    (mode : LoadMode) :
    (staging mode machine).WellFormed := by
  cases mode with
  | replace => exact wellFormed_ofConfig machine.config
  | extend =>
      have undisturbed :
          machine.Undisturbed (Machine.staging .extend machine) :=
        ⟨rfl, rfl, fun _ => rfl⟩
      exact undisturbed.wellFormed wellFormed

/-- A load that succeeds gives a well-formed machine. -/
theorem WellFormed.load
    {mode : LoadMode}
    {file source : String}
    {machine next : Machine}
    (wellFormed : machine.WellFormed)
    (succeeds : load mode file source machine = .ok () next) :
    next.WellFormed := by
  obtain ⟨program, signatures, parsed, loadedFrom⟩ :=
    loadedFrom_of_load succeeds
  obtain ⟨accepted, -⟩ := Compile.declareAll_eq_ok_iff.mp loadedFrom.declared
  have staged := wellFormed.staging mode
  -- When the load is done, the declared names are the names of the entries.
  have describe : signatures.Describe next.scopes.globals :=
    loadedFrom.effects.describe loadedFrom.declared (.ofEntries staged.distinct)
  have declared (name : String) (known : (signatures.get? name).isSome) :
      name ∈ next.names := by
    by_contra missing
    rw [describe name, Bindings.get?_eq_none_iff.mpr missing] at known
    cases known
  have kept (name : String)
      (member : name ∈ (Machine.staging mode machine).names) :
      name ∈ next.names :=
    loadedFrom.effects.preserve (name ∈ ·.names)
      (fun _ _ _ _ effect => effect.mem_names) member
  have distinct : next.names.Nodup :=
    loadedFrom.effects.preserve (·.names.Nodup)
      (fun _ _ _ _ effect => effect.nodup) staged.distinct
  have frames : next.scopes.frames = [] := loadedFrom.frames.trans staged.frames
  have entries :
      ∀ entry ∈ next.entries,
        entry.WellFormed machine.config (· ∈ next.names) := by
    refine loadedFrom.effects.preserve
      (fun bindings =>
        ∀ entry ∈ bindings.entries,
          entry.WellFormed machine.config (· ∈ next.names)) ?_ ?_
    · intro statement member before after effect
      exact effect.wellFormed (wellShaped_of_parse parsed member)
        (accepted statement member) declared
    · intro entry member
      have old := staged.entries entry member
      rw [staging_config] at old
      exact old.mono kept
  exact
    { frames := frames
      idle := loadedFrom.callDepth.trans wellFormed.idle
      distinct := distinct
      found := fun entry member => find?_of_mem frames distinct member
      entries := loadedFrom.config ▸ entries }

/-! The operations by which a machine is built. -/

/-- What can be done with a machine. -/
inductive Operation where
  | load (mode : LoadMode) (file source : String)
  | loadFile
      (mode : LoadMode)
      (file : String)
      (contents : Except FileFault String)
  | clear
  | push (cell : Cell)
  | pop
  | runEntry (entry : Entry)
  | runCode (code : Code)
  | valueOf (entry : Entry)
  | scalar (name : String) (missing : Missing)
  | element (entry : Entry) (indices : List Int64)
  | call (name : String) (arguments : List Value)
  | callNumber (name : String) (arguments : List Double)
  | eval (source : String)
  | constants
  | copy
  /--
  Save a snapshot and go on with the machine restored from it, if it can be
  restored.
  -/
  | restore

/-- The machine after an operation, whether it succeeds or fails. -/
def Operation.apply (machine : Machine) : Operation → Machine
  | .load mode file source => final (Machine.load mode file source machine)
  | .loadFile mode file contents =>
      final (Machine.loadFile mode file contents machine)
  | .clear => machine.cleared
  | .push cell => final (Machine.push cell machine)
  | .pop => final (Machine.pop machine)
  | .runEntry entry => final (Machine.runEntry entry machine)
  | .runCode code => final (Machine.runCode code machine)
  | .valueOf entry => final (Machine.valueOf entry machine)
  | .scalar name missing => final (Machine.scalar name missing machine)
  | .element entry indices => final (Machine.element entry indices machine)
  | .call name arguments => final (Machine.call name arguments machine)
  | .callNumber name arguments =>
      final (Machine.callNumber name arguments machine)
  | .eval source => final (Machine.eval source machine)
  | .constants => machine.constants.2
  | .copy => machine.copy
  | .restore =>
      match Machine.restore machine.config machine.snapshot with
      | .ok restored => restored
      | .error _ => machine

/--
A load keeps a machine well-formed, and its settings, whether it succeeds or
fails.
-/
theorem wellFormed_load
    {machine : Machine}
    (wellFormed : machine.WellFormed)
    (mode : LoadMode)
    (file source : String) :
    (final (load mode file source machine)).WellFormed ∧
      (final (load mode file source machine)).config = machine.config := by
  cases outcome : load mode file source machine with
  | ok _ next =>
      obtain ⟨program, signatures, -, loadedFrom⟩ := loadedFrom_of_load outcome
      exact ⟨wellFormed.load outcome, loadedFrom.config⟩
  | error error next =>
      obtain rfl := eq_of_load_error outcome
      exact ⟨wellFormed, rfl⟩

/-- Every operation keeps a machine well-formed, and its settings. -/
theorem Operation.wellFormed
    {machine : Machine}
    (wellFormed : machine.WellFormed)
    (operation : Operation) :
    (operation.apply machine).WellFormed ∧
      (operation.apply machine).config = machine.config := by
  have harmless {next : Machine} (undisturbed : machine.Undisturbed next) :
      next.WellFormed ∧ next.config = machine.config :=
    ⟨undisturbed.wellFormed wellFormed, undisturbed.config⟩
  cases operation with
  | load mode file source => exact wellFormed_load wellFormed mode file source
  | loadFile mode file contents =>
      cases contents with
      | ok source => exact wellFormed_load wellFormed mode file source
      | error fault => exact ⟨wellFormed, rfl⟩
  | clear =>
      exact ⟨{ wellFormed_ofConfig machine.config with idle :=
        wellFormed.idle }, rfl⟩
  | push cell => exact harmless (harmless_push cell machine)
  | pop => exact harmless (harmless_pop machine)
  | runEntry entry => exact harmless (harmless_runEntry entry machine)
  | runCode code => exact harmless (harmless_runCode code machine)
  | valueOf entry => exact harmless (harmless_valueOf entry machine)
  | scalar name missing => exact harmless (harmless_scalar name missing machine)
  | element entry indices =>
      exact harmless (harmless_element entry indices machine)
  | call name arguments => exact harmless (harmless_call name arguments machine)
  | callNumber name arguments =>
      exact harmless (harmless_callNumber name arguments machine)
  | eval source => exact harmless (harmless_eval source machine)
  | constants => exact harmless (undisturbed_constantLines machine _)
  | copy => exact harmless ⟨rfl, rfl, fun _ => rfl⟩
  | restore =>
      simp only [apply]
      split
      · rename_i restored succeeds
        obtain rfl := scopes_of_restore succeeds
        refine harmless ⟨?_, rfl, fun _ => rfl⟩
        have same :
            Bindings.ofEntries machine.entries = machine.scopes.globals :=
          Bindings.ofEntries_of_nodup wellFormed.distinct
        rw [same]
        exact congrArg (Scopes.mk machine.scopes.globals) wellFormed.frames.symm
      · exact ⟨wellFormed, rfl⟩

/--
The invariant of reachable machines.  After any finite sequence of operations on
a machine without entries, succeeding or failing, the machine is well-formed and
has the settings it started with.
-/
theorem wellFormed_of_operations
    (config : Config)
    (operations : List Operation) :
    (operations.foldl Operation.apply (ofConfig config)).WellFormed ∧
      (operations.foldl Operation.apply (ofConfig config)).config = config := by
  have reached :
      ∀ (operations : List Operation) (machine : Machine), machine.WellFormed →
        (operations.foldl Operation.apply machine).WellFormed ∧
          (operations.foldl Operation.apply machine).config =
            machine.config := by
    intro operations
    induction operations with
    | nil =>
        intro machine wellFormed
        exact ⟨wellFormed, rfl⟩
    | cons operation rest inductionHypothesis =>
        intro machine wellFormed
        obtain ⟨stays, sameConfig⟩ := operation.wellFormed wellFormed
        obtain ⟨ends, endConfig⟩ :=
          inductionHypothesis (operation.apply machine) stays
        exact ⟨ends, endConfig.trans sameConfig⟩
  exact reached operations (ofConfig config) (wellFormed_ofConfig config)

end Machine

end Formulary
