import Formulary.Proofs.Load.Event

namespace Formulary

open Stateful

/-!
# What loading a source changes

Carrying out a statement binds at most one entry in the global scope.  An
`Effect` says which one, and what is known about it: its programs are compiled
from the expressions of the statement, its sizes are positive, its points make
a table.  A load that succeeds has the effects of its statements, one after the
other, and everything proved about loaded machines is proved about effects.
-/

namespace Load

/--
The sizes of a declared array: those written, or the number of its initializers.
-/
def SizesOf
    (sizes : Option (List Expr))
    (elements : List Expr)
    (dims : List Nat) :
    Prop :=
  match sizes with
  | some sizes =>
      dims.length = sizes.length ∧ ∀ size ∈ dims, 1 ≤ size ∧ size < 2 ^ 63
  | none => dims = [elements.length]

/-- The global scope before and after a statement has been carried out. -/
inductive Effect (signatures : Signatures) (config : Config) :
    Action → Bindings → Bindings → Prop where
  | scalar
      {globals : Bindings}
      {name : String}
      {value : Expr}
      {code : Code}
      (compiled : Compile.expr signatures [] value = .ok code) :
      Effect signatures config (.scalar name value) globals
        (globals.insert ⟨name, .scalar code⟩)
  | function
      {globals : Bindings}
      {name : String}
      {params : List String}
      {body : Expr}
      {code : Code}
      (compiled : Compile.expr signatures params body = .ok code) :
      Effect signatures config (.function name params body) globals
        (globals.insert ⟨name, .function params code⟩)
  | curve
      {globals : Bindings}
      {name : String}
      {pairs : List (Expr × Expr)}
      {table : List Point}
      {curve : Curve}
      (read : table.length = pairs.length)
      (accepted : Curve.ofPoints table = .ok curve) :
      Effect signatures config (.curve name pairs) globals
        (globals.insert ⟨name, .curve curve⟩)
  | array
      {globals : Bindings}
      {name : String}
      {sizes : Option (List Expr)}
      {elements : List Expr}
      {dims : List Nat}
      {programs : List Code}
      (sized : SizesOf sizes elements dims)
      (fits : sizeFault? config dims elements.length = none)
      (compiled :
        List.Forall₂
          (fun element code => Compile.expr signatures [] element = .ok code)
          elements programs) :
      Effect signatures config (.array name sizes elements) globals
        (globals.insert ⟨name, .array (Grid.ofElements dims programs)⟩)
  | assign
      {globals : Bindings}
      {name : String}
      {subscripts : List Expr}
      {value : Expr}
      {grid changed : Grid}
      {tuple : List Int64}
      {code : Code}
      (known : globals.get? name = some ⟨name, .array grid⟩)
      (compiled : Compile.expr signatures [] value = .ok code)
      (set : grid.set tuple code = .ok changed) :
      Effect signatures config (.assign name subscripts value) globals
        (globals.insert ⟨name, .array changed⟩)
  | print
      {globals : Bindings}
      {value : Expr} :
      Effect signatures config (.print value) globals globals

/-- As many points are read as are written. -/
theorem length_points
    {signatures : Signatures}
    {table : String}
    {index : Nat}
    {pairs : List (Expr × Expr)}
    {machine next : Machine}
    {result : List Point}
    (succeeds : points signatures table index pairs machine = .ok result next) :
    result.length = pairs.length := by
  induction pairs generalizing index machine result with
  | nil =>
      cases succeeds
      rfl
  | cons pair rest inductionHypothesis =>
      obtain ⟨x, afterX, -, restOfX⟩ := bind_eq_ok.mp succeeds
      obtain ⟨y, afterY, -, restOfY⟩ := bind_eq_ok.mp restOfX
      obtain ⟨others, afterRest, restSucceeds, last⟩ := bind_eq_ok.mp restOfY
      cases last
      rw [List.length_cons, List.length_cons, inductionHypothesis restSucceeds]

/-- The sizes of an array are positive words, as many as are written. -/
theorem bounds_of_dimensions
    {signatures : Signatures}
    {array : String}
    {axis : Nat}
    {sizes : List Expr}
    {machine next : Machine}
    {dims : List Nat}
    (succeeds :
      dimensions signatures array axis sizes machine = .ok dims next) :
    dims.length = sizes.length ∧ ∀ size ∈ dims, 1 ≤ size ∧ size < 2 ^ 63 := by
  induction sizes generalizing axis machine dims with
  | nil =>
      cases succeeds
      simp
  | cons size rest inductionHypothesis =>
      obtain ⟨n, afterSize, -, restOfSize⟩ := bind_eq_ok.mp succeeds
      split at restOfSize
      · cases restOfSize
      · rename_i large
        obtain ⟨others, afterRest, restSucceeds, last⟩ :=
          bind_eq_ok.mp restOfSize
        cases last
        obtain ⟨sameLength, bounded⟩ := inductionHypothesis restSucceeds
        refine ⟨by rw [List.length_cons, List.length_cons, sameLength], ?_⟩
        intro other member
        rcases List.mem_cons.mp member with isFirst | inRest
        · have upper := n.toInt_lt
          omega
        · exact bounded other inRest

/--
The sizes of a declared array are those written, or the number of its
initializers.
-/
theorem Sized.sizesOf
    {signatures : Signatures}
    {machine : Machine}
    {name : String}
    {sizes : Option (List Expr)}
    {elements : List Expr}
    {dims : List Nat}
    (sized : Sized signatures machine name sizes elements dims) :
    SizesOf sizes elements dims := by
  cases sizes with
  | some sizes =>
      obtain ⟨later, succeeds⟩ := sized
      exact bounds_of_dimensions succeeds
  | none => exact sized

/-- What an event changes is the effect of the statement that comes to it. -/
theorem Carried.effect
    {signatures : Signatures}
    {action : Action}
    {event : Event}
    {globals : Bindings}
    {machine next : Machine}
    (carried : Carried signatures action event globals machine next) :
    Effect signatures machine.config action machine.scopes.globals globals := by
  obtain ⟨comesTo, writes, -⟩ := carried
  cases comesTo with
  | scalar compiled =>
      cases writes
      exact .scalar compiled
  | function compiled =>
      cases writes
      exact .function compiled
  | curve read accepted =>
      cases writes
      exact .curve (length_points read) accepted
  | array sized fits compiled =>
      cases writes
      exact .array sized.sizesOf fits compiled
  | assign read compiled =>
      cases writes with
      | assigned known set => exact .assign known compiled set
  | print evaluated =>
      cases writes
      exact .print

/--
A statement that is carried out has its effect on the global scope, and no
other.
-/
theorem effect_of_statement
    {signatures : Signatures}
    {source : Statement}
    {machine next : Machine}
    (succeeds : statement signatures source machine = .ok () next) :
    ∃ globals,
      Effect signatures machine.config source.action
        machine.scopes.globals globals ∧
        Rebound globals machine next := by
  obtain ⟨event, globals, carried⟩ := carried_of_statement succeeds
  exact ⟨globals, carried.effect, carried.rebound⟩

/-- The global scope before and after several statements. -/
inductive Effects (signatures : Signatures) (config : Config) :
    List Statement → Bindings → Bindings → Prop where
  | nil
      {globals : Bindings} :
      Effects signatures config [] globals globals
  | cons
      {source : Statement}
      {rest : List Statement}
      {before between after : Bindings}
      (first : Effect signatures config source.action before between)
      (others : Effects signatures config rest between after) :
      Effects signatures config (source :: rest) before after

theorem effects_of_statements
    {signatures : Signatures}
    {program : List Statement}
    {machine next : Machine}
    (succeeds : statements signatures program machine = .ok () next) :
    ∃ globals,
      Effects signatures machine.config program machine.scopes.globals globals ∧
        Rebound globals machine next := by
  induction program generalizing machine with
  | nil =>
      cases succeeds
      exact ⟨_, .nil, ⟨rfl, rfl⟩⟩
  | cons source rest inductionHypothesis =>
      obtain ⟨_, later, firstSucceeds, restSucceeds⟩ := bind_eq_ok.mp succeeds
      obtain ⟨between, firstEffect, firstRebound⟩ :=
        effect_of_statement firstSucceeds
      obtain ⟨after, restEffects, restRebound⟩ :=
        inductionHypothesis restSucceeds
      rw [firstRebound.config, firstRebound.scopes] at restEffects
      refine ⟨after, .cons firstEffect restEffects, ?_, ?_⟩
      · rw [restRebound.scopes, firstRebound.scopes]
      · rw [restRebound.config, firstRebound.config]

end Load

namespace Machine

/-- What is known about a machine whose source has been loaded. -/
structure LoadedFrom
    (mode : LoadMode)
    (program : List Statement)
    (signatures : Signatures)
    (machine next : Machine) : Prop where
  declared :
    Compile.declareAll
      (Signatures.ofEntries (staging mode machine).entries) program =
      .ok signatures
  effects :
    Load.Effects signatures machine.config program
      (staging mode machine).scopes.globals next.scopes.globals
  frames : next.scopes.frames = (staging mode machine).scopes.frames
  config : next.config = machine.config
  stack : next.stack = Stack.empty
  callDepth : next.callDepth = machine.callDepth

@[simp]
theorem staging_config
    (mode : LoadMode)
    (machine : Machine) :
    (staging mode machine).config = machine.config := by
  cases mode <;> rfl

/--
A source is loaded when it is parsed, its names are declared and its statements
succeed.
-/
theorem load_eq_ok_iff
    {mode : LoadMode}
    {file source : String}
    {machine next : Machine} :
    load mode file source machine = .ok () next ↔
      ∃ program signatures built,
        parse file source = .ok program ∧
        Compile.declareAll
          (Signatures.ofEntries (staging mode machine).entries) program =
          .ok signatures ∧
        Load.statements signatures program (staging mode machine) =
          .ok () built ∧
        next = commit mode machine built := by
  constructor
  · intro succeeds
    simp only [load] at succeeds
    cases parsed : parse file source with
    | error error =>
        simp only [parsed] at succeeds
        cases succeeds
    | ok program =>
        simp only [parsed] at succeeds
        cases outcome : Load.program program (staging mode machine) with
        | error diagnostic later =>
            simp only [outcome] at succeeds
            cases succeeds
        | ok _ built =>
            simp only [outcome] at succeeds
            cases succeeds
            simp only [Load.program, Stateful.bind_get] at outcome
            obtain ⟨signatures, later, declares, carriedOut⟩ :=
              bind_eq_ok.mp outcome
            obtain ⟨declared, rfl⟩ := Load.ofExcept_eq_ok_iff.mp declares
            exact ⟨program, signatures, built, rfl, declared, carriedOut, rfl⟩
  · rintro ⟨program, signatures, built, parsed, declared, carriedOut, rfl⟩
    have outcome :
        Load.program program (staging mode machine) = .ok () built := by
      simp only [Load.program, Stateful.bind_get, declared]
      exact carriedOut
    simp only [load, parsed, outcome]

/-- A load that succeeds has parsed a program and carried out its statements. -/
theorem loadedFrom_of_load
    {mode : LoadMode}
    {file source : String}
    {machine next : Machine}
    (succeeds : load mode file source machine = .ok () next) :
    ∃ program signatures,
      parse file source = .ok program ∧
        LoadedFrom mode program signatures machine next := by
  obtain ⟨program, signatures, built, parsed, declared, carriedOut, rfl⟩ :=
    load_eq_ok_iff.mp succeeds
  obtain ⟨globals, effects, rebound⟩ := Load.effects_of_statements carriedOut
  rw [staging_config] at effects
  refine ⟨program, signatures, parsed, declared, ?_, ?_, rfl, rfl, rfl⟩
  · simpa only [commit, rebound.scopes] using effects
  · simp only [commit, rebound.scopes]

end Machine

end Formulary
