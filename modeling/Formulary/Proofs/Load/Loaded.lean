import Formulary.Proofs.Compile.Inversion
import Formulary.Proofs.Entry.Grid
import Formulary.Proofs.Eval.Confined
import Formulary.Proofs.Load.Effect
import Formulary.Proofs.Source.Program

namespace Formulary

/-!
# Loaded machines

Machines built by any sequence of successful loads, and how a property of the
global scope is carried over to all of them: it holds when nothing has been
loaded, and the effect of every statement of a parsed source preserves it.
-/

namespace Load

/-- What each effect preserves, a sequence of effects preserves. -/
theorem Effects.preserve
    {signatures : Signatures}
    {config : Config}
    {program : List Statement}
    {before after : Bindings}
    (effects : Effects signatures config program before after)
    (holds : Bindings → Prop)
    (preserved :
      ∀ statement ∈ program, ∀ {before after : Bindings},
        Effect signatures config statement.action before after →
          holds before → holds after)
    (initially : holds before) :
    holds after := by
  induction effects with
  | nil => exact initially
  | @cons statement rest before between after first others
        inductionHypothesis =>
      refine inductionHypothesis ?_
        (preserved statement List.mem_cons_self first initially)
      intro other member
      exact preserved other (List.mem_cons_of_mem statement member)

/-- Every program of written elements is compiled from one of them. -/
theorem exists_of_mem_programs
    {signatures : Signatures}
    {elements : List Expr}
    {programs : List Code}
    (compiled :
      List.Forall₂
        (fun element code => Compile.expr signatures [] element = .ok code)
        elements programs)
    {code : Code}
    (member : code ∈ programs) :
    ∃ element ∈ elements, Compile.expr signatures [] element = .ok code := by
  induction compiled with
  | nil => cases member
  | cons first rest inductionHypothesis =>
      rcases List.mem_cons.mp member with rfl | inRest
      · exact ⟨_, List.mem_cons_self, first⟩
      · obtain ⟨element, isElement, compiles⟩ := inductionHypothesis inRest
        exact ⟨element, List.mem_cons_of_mem _ isElement, compiles⟩

/--
What holds of the filler of arrays and of everything compiled from a statement
holds of the programs there are after the statement, when it held before.
-/
theorem Effect.programs
    {signatures : Signatures}
    {config : Config}
    {action : Action}
    {before after : Bindings}
    (effect : Effect signatures config action before after)
    (holds : Code → Prop)
    (blank : holds Grid.blank)
    (stored :
      ∀ tree ∈ action.stored, ∀ params code,
        Compile.expr signatures params tree = .ok code → holds code)
    (old : ∀ entry ∈ before.entries, ∀ code ∈ entry.programs, holds code) :
    ∀ entry ∈ after.entries, ∀ code ∈ entry.programs, holds code := by
  cases effect with
  | @scalar globals name value code compiled =>
      refine Bindings.forall_mem_insert ?_ old
      intro program isProgram
      obtain rfl := List.mem_singleton.mp isProgram
      exact stored value (List.mem_singleton_self _) [] program compiled
  | @function globals name params body code compiled =>
      refine Bindings.forall_mem_insert ?_ old
      intro program isProgram
      obtain rfl := List.mem_singleton.mp isProgram
      exact stored body (List.mem_singleton_self _) params program compiled
  | curve =>
      refine Bindings.forall_mem_insert ?_ old
      intro program isProgram
      cases isProgram
  | @array globals name sizes elements dims programs sized fits compiled =>
      refine Bindings.forall_mem_insert ?_ old
      intro program isProgram
      rcases Grid.mem_ofElements isProgram with written | rfl
      · obtain ⟨element, isElement, compiles⟩ :=
          exists_of_mem_programs compiled written
        exact stored element isElement [] program compiles
      · exact blank
  | @assign globals name subscripts value grid changed tuple code known
        compiled set =>
      refine Bindings.forall_mem_insert ?_ old
      intro program isProgram
      obtain ⟨offset, -, rfl⟩ := Grid.of_set set
      simp only [Entry.programs, Array.toList_setIfInBounds] at isProgram
      rcases List.mem_or_eq_of_mem_set isProgram with isOld | rfl
      · exact old _ (Bindings.mem_of_get? known).1 program isOld
      · exact stored value (List.mem_singleton_self _) [] program compiled
  | print => exact old

/--
The entry a statement binds has checked programs, when the entries before it do.
-/
theorem Effect.checked
    {signatures : Signatures}
    {config : Config}
    {action : Action}
    {before after : Bindings}
    (effect : Effect signatures config action before after)
    (checked : ∀ entry ∈ before.entries, entry.Checked) :
    ∀ entry ∈ after.entries, entry.Checked := by
  refine effect.programs (fun code => Code.check code = .ok ()) ?_ ?_ checked
  · exact Code.check_push (.int 0)
  · intro tree _ params code compiled
    exact (Compile.emit_of_expr compiled).2

end Load

namespace Machine

/-- Machines built by successful loads. -/
inductive Loaded : Machine → Prop where
  | start (config : Config) : Loaded (ofConfig config)
  | load
      {mode : LoadMode}
      {file source : String}
      {machine next : Machine}
      (before : Loaded machine)
      (succeeds : Machine.load mode file source machine = .ok () next) :
      Loaded next

/-- One of them holds a function and a scalar that calls it. -/
theorem exists_loaded :
    ∃ machine : Machine, machine.Loaded ∧
      machine.entries =
        [⟨"f", .function ["x"]
            [.variable "x", .op .square, .literal (.int 1),
              .op (.binary .add)]⟩,
          ⟨"y", .scalar [.literal (.int 3), .call "f" 1, .op .negate]⟩] := by
  have loads : ∃ machine : Machine,
      load .replace "" "f(x) = x ^ 2 + 1; y = -f(3);" (ofConfig {}) =
        .ok () machine ∧
        machine.entries =
          [⟨"f", .function ["x"]
              [.variable "x", .op .square, .literal (.int 1),
                .op (.binary .add)]⟩,
            ⟨"y", .scalar [.literal (.int 3), .call "f" 1, .op .negate]⟩] := by
    refine ⟨{ ofConfig {} with scopes := ⟨⟨_⟩, []⟩ }, ?_, rfl⟩
    decide +kernel
  obtain ⟨machine, succeeds, entries⟩ := loads
  exact ⟨machine, .load (.start {}) succeeds, entries⟩

namespace Loaded

/-- No function is active between loads. -/
theorem frames
    {machine : Machine}
    (loaded : machine.Loaded) :
    machine.scopes.frames = [] := by
  induction loaded with
  | start config => rfl
  | @load mode file source machine next before succeeds inductionHypothesis =>
      obtain ⟨program, signatures, -, loadedFrom⟩ := loadedFrom_of_load succeeds
      rw [loadedFrom.frames]
      cases mode with
      | replace => rfl
      | extend => exact inductionHypothesis

/--
What the statements of parsed sources preserve holds of the globals of a loaded
machine.
-/
theorem globals
    {machine : Machine}
    (loaded : machine.Loaded)
    (holds : Bindings → Prop)
    (initially : holds Bindings.empty)
    (preserved :
      ∀ {file source : String} {program : List Statement}
        {signatures : Signatures}
        {config : Config} {statement : Statement} {before after : Bindings},
        parse file source = .ok program → statement ∈ program →
          Load.Effect signatures config statement.action before after →
            holds before → holds after) :
    holds machine.scopes.globals := by
  induction loaded with
  | start config => exact initially
  | @load mode file source machine next before succeeds inductionHypothesis =>
      obtain ⟨program, signatures, parsed, loadedFrom⟩ :=
        loadedFrom_of_load succeeds
      refine loadedFrom.effects.preserve holds
        (fun statement member _ _ => preserved parsed member) ?_
      cases mode with
      | replace => exact initially
      | extend => exact inductionHypothesis

/-- No program is being executed between loads. -/
theorem callDepth
    {machine : Machine}
    (loaded : machine.Loaded) :
    machine.callDepth = 0 := by
  induction loaded with
  | start config => rfl
  | load before succeeds inductionHypothesis =>
      obtain ⟨program, signatures, -, loadedFrom⟩ := loadedFrom_of_load succeeds
      rw [loadedFrom.callDepth, inductionHypothesis]

/-- Nothing is left on the stack by a load. -/
theorem stack
    {machine : Machine}
    (loaded : machine.Loaded) :
    machine.stack = Stack.empty := by
  cases loaded with
  | start config => rfl
  | load before succeeds =>
      obtain ⟨program, signatures, -, loadedFrom⟩ := loadedFrom_of_load succeeds
      exact loadedFrom.stack

/-- Every program of a loaded machine leaves exactly one value. -/
theorem checked
    {machine : Machine}
    (loaded : machine.Loaded) :
    machine.scopes.Checked := by
  refine ⟨?_, by simp [loaded.frames]⟩
  refine loaded.globals
    (fun bindings => ∀ entry ∈ bindings.entries, entry.Checked) ?_ ?_
  · intro entry member
    cases member
  · intro file source program signatures config statement before
      after _ _ effect
    exact effect.checked

/-- The names of loaded entries are names. -/
theorem named
    {machine : Machine}
    (loaded : machine.Loaded) :
    ∀ entry ∈ machine.entries, Lexeme.IsName entry.name := by
  refine loaded.globals
    (fun bindings => ∀ entry ∈ bindings.entries, Lexeme.IsName entry.name) ?_ ?_
  · intro entry member
    cases member
  · intro file source program signatures config statement before after parsed
      member effect named
    have shaped := wellShaped_of_parse parsed member
    generalize statement.action = action at effect shaped
    cases effect with
    | scalar => exact Bindings.forall_mem_insert shaped named
    | function => exact Bindings.forall_mem_insert shaped.1 named
    | curve => exact Bindings.forall_mem_insert shaped named
    | array => exact Bindings.forall_mem_insert shaped.1 named
    | assign => exact Bindings.forall_mem_insert shaped named
    | print => exact named

end Loaded

end Machine

end Formulary
