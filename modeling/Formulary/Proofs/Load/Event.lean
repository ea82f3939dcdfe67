import Formulary.Machine.Load
import Formulary.Proofs.Stateful
import Mathlib.Algebra.Group.Nat.Defs
import Mathlib.Data.List.Forall2

namespace Formulary

open Stateful

/-!
# What statements come to

Carrying out a statement compiles its expressions, or evaluates them against
what has been stored before.  An `Event` holds what has been found in this way:
the entry of a declaration, the index tuple and the program of an assignment,
the value of a printed expression.  The global scope changes by the event alone.
-/

namespace Machine

/-- Two machines that differ in nothing but their stacks. -/
structure Agrees (machine other : Machine) : Prop where
  scopes : other.scopes = machine.scopes
  config : other.config = machine.config
  printed : other.printed = machine.printed

namespace Agrees

theorem refl (machine : Machine) : machine.Agrees machine :=
  ⟨rfl, rfl, rfl⟩

theorem trans
    {first second third : Machine}
    (before : first.Agrees second)
    (after : second.Agrees third) :
    first.Agrees third :=
  ⟨after.scopes.trans before.scopes, after.config.trans before.config,
    after.printed.trans before.printed⟩

end Agrees

/-- An evaluation changes nothing but the stack. -/
theorem agrees_of_evaluate
    {code : Code}
    {machine next : Machine}
    {value : Value}
    (succeeds : evaluate code machine = .ok value next) :
    machine.Agrees next := by
  simp only [evaluate] at succeeds
  split at succeeds
  · cases succeeds
    exact ⟨rfl, rfl, rfl⟩
  · cases succeeds

end Machine

namespace Load

/-- An operation that only evaluates and compiles. -/
def ReadsOnly (action : Build α) : Prop :=
  ∀ (machine next : Machine) (a : α),
    action machine = .ok a next → machine.Agrees next

namespace ReadsOnly

theorem bind
    {action : Build α}
    {rest : α → Build β}
    (first : ReadsOnly action)
    (second : ∀ a, ReadsOnly (rest a)) :
    ReadsOnly (action >>= rest) := by
  intro machine final b succeeds
  obtain ⟨a, next, firstSucceeds, restSucceeds⟩ := bind_eq_ok.mp succeeds
  exact (first machine next a firstSucceeds).trans
    (second a next final b restSucceeds)

theorem pure (a : α) : ReadsOnly (pure a : Build α) := by
  intro machine next result succeeds
  cases succeeds
  exact .refl machine

theorem fail
    (fault : CompileFault)
    (position : Position) :
    ReadsOnly (Load.fail fault position : Build α) := by
  intro machine next result succeeds
  cases succeeds

theorem ofExcept
    (result : Except Diagnostic α) :
    ReadsOnly (Load.ofExcept result) := by
  cases result with
  | ok a => exact .pure a
  | error diagnostic =>
      intro machine next a succeeds
      cases succeeds

end ReadsOnly

section Constants

variable (signatures : Signatures)

theorem readsOnly_compile
    (source : Expr) :
    ReadsOnly (compile signatures source) :=
  .ofExcept _

theorem readsOnly_constant
    (place : Constant)
    (source : Expr) :
    ReadsOnly (constant signatures place source) := by
  refine (readsOnly_compile signatures source).bind fun code => ?_
  intro machine next value succeeds
  cases outcome : Machine.evaluate code machine with
  | ok result later =>
      simp only [outcome] at succeeds
      cases succeeds
      exact Machine.agrees_of_evaluate outcome
  | error failure later =>
      simp only [outcome] at succeeds
      cases succeeds

theorem readsOnly_constantNumber
    (place : Constant)
    (source : Expr) :
    ReadsOnly (constantNumber signatures place source) := by
  refine (readsOnly_constant signatures place source).bind fun value => ?_
  cases value.asDouble? with
  | some x => exact .pure x
  | none => exact .fail _ _

theorem readsOnly_constantIndex
    (place : Constant)
    (source : Expr) :
    ReadsOnly (constantIndex signatures place source) := by
  refine (readsOnly_constant signatures place source).bind fun value => ?_
  cases (Cell.literal value).index with
  | ok n => exact .pure n
  | error fault => exact .fail _ _

theorem readsOnly_points
    (table : String)
    (index : Nat)
    (pairs : List (Expr × Expr)) :
    ReadsOnly (points signatures table index pairs) := by
  induction pairs generalizing index with
  | nil => exact .pure []
  | cons pair rest inductionHypothesis =>
      exact (readsOnly_constantNumber signatures _ _).bind fun _ =>
        (readsOnly_constantNumber signatures _ _).bind fun _ =>
          (inductionHypothesis (index + 1)).bind fun _ => .pure _

theorem readsOnly_dimensions
    (array : String)
    (axis : Nat)
    (sizes : List Expr) :
    ReadsOnly (dimensions signatures array axis sizes) := by
  induction sizes generalizing axis with
  | nil => exact .pure []
  | cons size rest inductionHypothesis =>
      refine (readsOnly_constantIndex signatures _ _).bind fun n => ?_
      split
      · exact .fail _ _
      · exact (inductionHypothesis (axis + 1)).bind fun _ => .pure _

theorem readsOnly_indices
    (array : String)
    (axis : Nat)
    (subscripts : List Expr) :
    ReadsOnly (indices signatures array axis subscripts) := by
  induction subscripts generalizing axis with
  | nil => exact .pure []
  | cons index rest inductionHypothesis =>
      exact (readsOnly_constantIndex signatures _ _).bind fun _ =>
        (inductionHypothesis (axis + 1)).bind fun _ => .pure _

theorem readsOnly_compileEach (elements : List Expr) :
    ReadsOnly (compileEach signatures elements) := by
  induction elements with
  | nil => exact .pure []
  | cons first rest inductionHypothesis =>
      exact (readsOnly_compile signatures first).bind fun _ =>
        inductionHypothesis.bind fun _ => .pure _

end Constants

/-- What needs no machine succeeds on every machine, and leaves it as it was. -/
theorem ofExcept_eq_ok_iff
    {result : Except Diagnostic α}
    {machine next : Machine}
    {a : α} :
    ofExcept result machine = .ok a next ↔ result = .ok a ∧ next = machine := by
  constructor
  · intro succeeds
    cases result with
    | ok b =>
        cases succeeds
        exact ⟨rfl, rfl⟩
    | error diagnostic => cases succeeds
  · rintro ⟨rfl, rfl⟩
    rfl

/-- A program that has been compiled outside every function. -/
theorem expr_of_compile
    {signatures : Signatures}
    {source : Expr}
    {machine next : Machine}
    {code : Code}
    (succeeds : compile signatures source machine = .ok code next) :
    Compile.expr signatures [] source = .ok code :=
  (ofExcept_eq_ok_iff.mp succeeds).1

/-- Programs compiled one by one are the programs of their expressions. -/
theorem forall₂_of_compileEach
    {signatures : Signatures}
    {elements : List Expr}
    {machine next : Machine}
    {programs : List Code}
    (succeeds : compileEach signatures elements machine = .ok programs next) :
    List.Forall₂
      (fun element code => Compile.expr signatures [] element = .ok code)
      elements programs := by
  induction elements generalizing machine programs with
  | nil =>
      cases succeeds
      exact .nil
  | cons first rest inductionHypothesis =>
      obtain ⟨code, afterFirst, firstSucceeds, others⟩ := bind_eq_ok.mp succeeds
      obtain ⟨codes, afterRest, restSucceeds, last⟩ := bind_eq_ok.mp others
      cases last
      exact .cons (expr_of_compile firstSucceeds)
        (inductionHypothesis restSucceeds)

/-- What a statement has come to. -/
inductive Event where
  /-- A name is bound to an entry. -/
  | declared (entry : Entry)
  /-- An element of an array is given a program. -/
  | assigned (name : String) (tuple : List Int64) (code : Code)
  /-- A value is printed. -/
  | printed (value : Value)

/--
The sizes of an array: those written, once evaluated, or the number of its
initializers.
-/
def Sized
    (signatures : Signatures)
    (machine : Machine)
    (name : String)
    (sizes : Option (List Expr))
    (elements : List Expr)
    (dims : List Nat) :
    Prop :=
  match sizes with
  | some sizes =>
      ∃ later, dimensions signatures name 0 sizes machine = .ok dims later
  | none => dims = [elements.length]

/-- A statement that is carried out on a machine comes to an event. -/
inductive ComesTo
    (signatures : Signatures)
    (machine : Machine) :
    Action → Event → Prop where
  | scalar
      {name : String}
      {value : Expr}
      {code : Code}
      (compiled : Compile.expr signatures [] value = .ok code) :
      ComesTo signatures machine (.scalar name value)
        (.declared ⟨name, .scalar code⟩)
  | function
      {name : String}
      {params : List String}
      {body : Expr}
      {code : Code}
      (compiled : Compile.expr signatures params body = .ok code) :
      ComesTo signatures machine (.function name params body)
        (.declared ⟨name, .function params code⟩)
  | curve
      {name : String}
      {pairs : List (Expr × Expr)}
      {table : List Point}
      {later : Machine}
      {curve : Curve}
      (read : points signatures name 0 pairs machine = .ok table later)
      (accepted : Curve.ofPoints table = .ok curve) :
      ComesTo signatures machine (.curve name pairs)
        (.declared ⟨name, .curve curve⟩)
  | array
      {name : String}
      {sizes : Option (List Expr)}
      {elements : List Expr}
      {dims : List Nat}
      {programs : List Code}
      (sized : Sized signatures machine name sizes elements dims)
      (fits : sizeFault? machine.config dims elements.length = none)
      (compiled :
        List.Forall₂
          (fun element code => Compile.expr signatures [] element = .ok code)
          elements programs) :
      ComesTo signatures machine (.array name sizes elements)
        (.declared ⟨name, .array (Grid.ofElements dims programs)⟩)
  | assign
      {name : String}
      {subscripts : List Expr}
      {value : Expr}
      {tuple : List Int64}
      {later : Machine}
      {code : Code}
      (read : indices signatures name 0 subscripts machine = .ok tuple later)
      (compiled : Compile.expr signatures [] value = .ok code) :
      ComesTo signatures machine (.assign name subscripts value)
        (.assigned name tuple code)
  | print
      {value : Expr}
      {later : Machine}
      {result : Value}
      (evaluated :
        constant signatures .printed value machine = .ok result later) :
      ComesTo signatures machine (.print value) (.printed result)

/-- The global scope before and after an event. -/
inductive Event.Writes : Event → Bindings → Bindings → Prop where
  | declared
      {globals : Bindings}
      (entry : Entry) :
      Writes (.declared entry) globals (globals.insert entry)
  | assigned
      {globals : Bindings}
      {name : String}
      {grid changed : Grid}
      {tuple : List Int64}
      {code : Code}
      (known : globals.get? name = some ⟨name, .array grid⟩)
      (set : grid.set tuple code = .ok changed) :
      Writes (.assigned name tuple code) globals
        (globals.insert ⟨name, .array changed⟩)
  | printed
      {globals : Bindings}
      {value : Value} :
      Writes (.printed value) globals globals

/--
A machine whose global scope has changed while its frames and settings have not.
-/
structure Rebound (globals : Bindings) (machine next : Machine) : Prop where
  scopes : next.scopes = ⟨globals, machine.scopes.frames⟩
  config : next.config = machine.config

/-- Binding an entry after operations that only evaluate and compile. -/
theorem rebound_of_define
    {entry : Entry}
    {machine later next : Machine}
    (agrees : machine.Agrees later)
    (defined : define entry later = .ok () next) :
    Rebound (machine.scopes.globals.insert entry) machine next := by
  cases defined
  refine ⟨?_, agrees.config⟩
  simp only [Scopes.define, agrees.scopes]

/--
A statement that has been carried out, what it has come to and what that has
changed.
-/
structure Carried
    (signatures : Signatures)
    (action : Action)
    (event : Event)
    (globals : Bindings)
    (machine next : Machine) : Prop where
  comesTo : ComesTo signatures machine action event
  writes : event.Writes machine.scopes.globals globals
  rebound : Rebound globals machine next

/-- A declaration whose entry is bound last. -/
theorem Carried.declared
    {signatures : Signatures}
    {action : Action}
    {entry : Entry}
    {machine later next : Machine}
    (comesTo : ComesTo signatures machine action (.declared entry))
    (agrees : machine.Agrees later)
    (defined : define entry later = .ok () next) :
    Carried signatures action (.declared entry)
      (machine.scopes.globals.insert entry) machine next :=
  ⟨comesTo, .declared entry, rebound_of_define agrees defined⟩

/-- Declaring an array whose sizes are known. -/
theorem carried_of_sized
    {signatures : Signatures}
    {position : Position}
    {name : String}
    {sizes : Option (List Expr)}
    {elements : List Expr}
    {dims : List Nat}
    {machine later next : Machine}
    (sized : Sized signatures machine name sizes elements dims)
    (agrees : machine.Agrees later)
    (succeeds :
      (do
        match sizeFault? (← get).config dims elements.length with
        | some fault => fail (.invalid name fault) position
        | none =>
            let programs ← compileEach signatures elements
            define ⟨name, .array (Grid.ofElements dims programs)⟩ : Build Unit)
              later =
        .ok () next) :
    ∃ event globals,
      Carried signatures (.array name sizes elements) event globals
        machine next := by
  rw [bind_get] at succeeds
  cases fits : sizeFault? later.config dims elements.length with
  | some fault =>
      simp only [fits] at succeeds
      cases succeeds
  | none =>
      simp only [fits] at succeeds
      obtain ⟨programs, afterElements, elementsSucceed, last⟩ :=
        bind_eq_ok.mp succeeds
      have stillAgrees : machine.Agrees afterElements :=
        agrees.trans
          (readsOnly_compileEach signatures elements _ _ _ elementsSucceed)
      rw [agrees.config] at fits
      have compiled := forall₂_of_compileEach elementsSucceed
      exact ⟨_, _, .declared (.array sized fits compiled) stillAgrees last⟩

theorem carried_of_array
    {signatures : Signatures}
    {position : Position}
    {name : String}
    {sizes : Option (List Expr)}
    {elements : List Expr}
    {machine next : Machine}
    (succeeds :
      array signatures position name sizes elements machine = .ok () next) :
    ∃ event globals,
      Carried signatures (.array name sizes elements) event globals
        machine next := by
  cases sizes with
  | some sizes =>
      obtain ⟨dims, later, sizesSucceed, rest⟩ := bind_eq_ok.mp succeeds
      have sized : Sized signatures machine name (some sizes) elements dims :=
        ⟨later, sizesSucceed⟩
      exact carried_of_sized sized
        (readsOnly_dimensions signatures name 0 sizes _ _ _ sizesSucceed) rest
  | none =>
      have sized :
          Sized signatures machine name none elements [elements.length] := rfl
      exact carried_of_sized sized (.refl machine) succeeds

/-- The array that is assigned to is an entry of the global scope. -/
theorem get?_of_assignedArray
    {name : String}
    {position : Position}
    {machine next : Machine}
    {grid : Grid}
    (succeeds : assignedArray name position machine = .ok grid next) :
    machine.scopes.globals.get? name = some ⟨name, .array grid⟩ ∧
      next = machine := by
  simp only [assignedArray, bind_get] at succeeds
  cases known : machine.scopes.globals.get? name with
  | none =>
      simp only [known] at succeeds
      cases succeeds
  | some entry =>
      simp only [known] at succeeds
      have named : entry.name = name := by
        simpa using List.find?_some known
      obtain ⟨ownName, definition⟩ := entry
      cases definition <;>
        simp only [Entry.grid?] at succeeds <;> cases succeeds
      subst named
      exact ⟨rfl, rfl⟩

theorem carried_of_assign
    {signatures : Signatures}
    {position : Position}
    {name : String}
    {subscripts : List Expr}
    {value : Expr}
    {machine next : Machine}
    (succeeds :
      assign signatures position name subscripts value machine = .ok () next) :
    ∃ event globals,
      Carried signatures (.assign name subscripts value) event globals
        machine next := by
  obtain ⟨grid, afterLookup, lookupSucceeds, rest⟩ := bind_eq_ok.mp succeeds
  obtain ⟨known, rfl⟩ := get?_of_assignedArray lookupSucceeds
  split at rest
  · obtain ⟨tuple, afterIndices, indicesSucceed, restOfIndices⟩ :=
      bind_eq_ok.mp rest
    obtain ⟨code, afterValue, valueSucceeds, last⟩ :=
      bind_eq_ok.mp restOfIndices
    have agrees : afterLookup.Agrees afterValue :=
      (readsOnly_indices signatures name 0 subscripts _ _ _
        indicesSucceed).trans
        (readsOnly_compile signatures value _ _ _ valueSucceeds)
    cases set : grid.set tuple code with
    | ok changed =>
        simp only [set] at last
        exact ⟨_, _, .assign indicesSucceed (expr_of_compile valueSucceeds),
          .assigned known set, rebound_of_define agrees last⟩
    | error fault =>
        simp only [set] at last
        cases last
  · cases rest

/--
A statement that succeeds comes to an event, and changes what the event changes.
-/
theorem carried_of_statement
    {signatures : Signatures}
    {source : Statement}
    {machine next : Machine}
    (succeeds : statement signatures source machine = .ok () next) :
    ∃ event globals,
      Carried signatures source.action event globals machine next := by
  obtain ⟨position, action⟩ := source
  cases action with
  | scalar name value =>
      obtain ⟨code, later, compiles, last⟩ := bind_eq_ok.mp succeeds
      have agrees := readsOnly_compile signatures value _ _ _ compiles
      exact ⟨_, _, .declared (.scalar (expr_of_compile compiles)) agrees last⟩
  | function name params body =>
      obtain ⟨code, later, compiles, last⟩ := bind_eq_ok.mp succeeds
      have agrees :=
        ReadsOnly.ofExcept (Compile.expr signatures params body) _ _ _ compiles
      exact ⟨_, _,
        .declared (.function (ofExcept_eq_ok_iff.mp compiles).1) agrees last⟩
  | curve name pairs =>
      obtain ⟨table, later, read, last⟩ := bind_eq_ok.mp succeeds
      cases accepted : Curve.ofPoints table with
      | ok curve =>
          simp only [accepted] at last
          have agrees := readsOnly_points signatures name 0 pairs _ _ _ read
          exact ⟨_, _, .declared (.curve read accepted) agrees last⟩
      | error fault =>
          simp only [accepted] at last
          cases last
  | array name sizes elements =>
      exact carried_of_array succeeds
  | assign name subscripts value =>
      exact carried_of_assign succeeds
  | print value =>
      obtain ⟨result, later, evaluates, last⟩ := bind_eq_ok.mp succeeds
      have agrees :=
        readsOnly_constant signatures .printed value _ _ _ evaluates
      cases last
      exact ⟨_, _, .print evaluates, .printed,
        ⟨by rw [agrees.scopes], agrees.config⟩⟩

end Load

end Formulary
