import Formulary.Proofs.Compile.Inversion
import Formulary.Proofs.Load.LastWrite

namespace Formulary

open Stateful

/-!
# What a load leaves behind

A source that is loaded leaves the names it declares, in the order in which they
are first declared, and for each of them its last declaration.  An array that
has been declared last is read element by element: what has been assigned to an
element since then, the latest assignment first, then its initializer, then
zero.  Every program refers to names as they are in the end, wherever it stands.
-/

namespace Load

/--
Statements carried out one after the other, each on the machine that those
before it have left, with the events they come to.
-/
inductive CarriedOut (signatures : Signatures) :
    Machine → List Statement → List Event → Machine → Prop where
  | nil
      {machine : Machine} :
      CarriedOut signatures machine [] [] machine
  | cons
      {source : Statement}
      {rest : List Statement}
      {event : Event}
      {events : List Event}
      {machine between next : Machine}
      (comesTo : ComesTo signatures machine source.action event)
      (succeeds : statement signatures source machine = .ok () between)
      (others : CarriedOut signatures between rest events next) :
      CarriedOut signatures machine (source :: rest) (event :: events) next

/-- Statements that succeed come to events, which write to the global scope. -/
theorem exists_carriedOut
    {signatures : Signatures}
    {program : List Statement}
    {machine next : Machine}
    (succeeds : statements signatures program machine = .ok () next) :
    ∃ events,
      CarriedOut signatures machine program events next ∧
        Written events machine.scopes.globals next.scopes.globals := by
  induction program generalizing machine with
  | nil =>
      cases succeeds
      exact ⟨[], .nil, .nil⟩
  | cons source rest inductionHypothesis =>
      obtain ⟨_, between, firstSucceeds, restSucceeds⟩ := bind_eq_ok.mp succeeds
      obtain ⟨event, globals, comesTo, writes, rebound⟩ :=
        carried_of_statement firstSucceeds
      obtain ⟨events, others, written⟩ := inductionHypothesis restSucceeds
      rw [rebound.scopes] at written
      exact ⟨event :: events, .cons comesTo firstSucceeds others,
        .cons writes written⟩

/-- An event declares the name that its statement declares. -/
theorem ComesTo.declares?_eq
    {signatures : Signatures}
    {machine : Machine}
    {action : Action}
    {event : Event}
    (comesTo : ComesTo signatures machine action event) :
    event.declares? = (Compile.declaration? action).map Prod.fst := by
  cases comesTo <;> rfl

/-- Events declare the names that their statements declare. -/
theorem CarriedOut.namesDeclared_eq
    {signatures : Signatures}
    {program : List Statement}
    {events : List Event}
    {machine next : Machine}
    (carriedOut : CarriedOut signatures machine program events next) :
    namesDeclared events = Compile.declaredNames program := by
  induction carriedOut with
  | nil => rfl
  | cons comesTo succeeds others inductionHypothesis =>
      simp only [namesDeclared, Compile.declaredNames, List.filterMap_cons,
        comesTo.declares?_eq]
      rw [← Compile.declaredNames, ← inductionHypothesis, namesDeclared]

end Load

namespace Machine

open Load

/-- What is left of a source whose statements have come to events. -/
structure LeftBy
    (program : List Statement)
    (signatures : Signatures)
    (events : List Event)
    (machine : Machine) : Prop where
  /-- The declared names, in the order of their first declaration. -/
  names : machine.names = (Compile.declaredNames program).eraseDups
  /-- Every name has a last declaration. -/
  declared :
    ∀ name ∈ machine.names, ∃ earlier entry later,
      events = earlier ++ .declared entry :: later ∧
        entry.name = name ∧
        name ∉ namesDeclared later
  /--
  A name is bound to the entry of its last declaration, if that is not an array.
  -/
  entries :
    ∀ earlier entry later,
      events = earlier ++ .declared entry :: later →
      entry.name ∉ namesDeclared later →
      entry.grid? = none →
        machine.find? entry.name = some entry
  /--
  If it is an array, the program at an index tuple is the one that is assigned
  to it last after the declaration, or else the initializer at its place, or
  else zero.
  -/
  arrays :
    ∀ earlier name dims programs later,
      events = earlier ++
        .declared ⟨name, .array (Grid.ofElements dims programs)⟩ :: later →
      name ∉ namesDeclared later →
        ∃ grid,
          machine.find? name = some ⟨name, .array grid⟩ ∧
            grid.dims = dims ∧
            grid.elements.size = dims.prod ∧
            ∀ tuple place, grid.offset tuple = .ok place →
              grid.element tuple =
                .ok ((lastAssigned? name tuple later).getD
                  (programs[place]?.getD Grid.blank))
  /-- Names have been compiled as what they are in the end. -/
  kinds : ∀ name,
    signatures.get? name = (machine.find? name).map Entry.signature
  /--
  An expression has the program that it would have when everything has been
  loaded.
  -/
  references :
    ∀ params tree,
      Compile.expr signatures params tree =
        Compile.expr (.ofEntries machine.entries) params tree

/--
A machine without frames whose names are distinct and described, after its
events.
-/
theorem leftBy_of_written
    {program : List Statement}
    {signatures : Signatures}
    {events : List Event}
    {machine : Machine}
    (written : Written events Bindings.empty machine.scopes.globals)
    (sameNames : namesDeclared events = Compile.declaredNames program)
    (outside : machine.scopes.frames = [])
    (distinct : machine.scopes.globals.names.Nodup)
    (describes : signatures.Describe machine.scopes.globals) :
    LeftBy program signatures events machine := by
  have globally (name : String) :
      machine.find? name = machine.scopes.globals.get? name := by
    simp [find?, Scopes.find?, outside]
  have nothing : Bindings.empty.names = ([] : List String).eraseDups := rfl
  have left := written.names nothing
  -- What the last declaration of a name has bound
  -- it to, and what has been written since.
  have since {earlier later : List Event} {entry : Entry}
      (split : events = earlier ++ .declared entry :: later) :
      ∃ between : Bindings,
        between.get? entry.name = some entry ∧
          Written later between machine.scopes.globals := by
    obtain ⟨before, -, rest⟩ := (split ▸ written).split
    cases rest with
    | cons first others =>
        cases first with
        | declared => exact ⟨_, Bindings.get?_insert_self before entry, others⟩
  refine
    { names := ?names
      declared := ?declared
      entries := ?entries
      arrays := ?arrays
      kinds := ?kinds
      references := ?references }
  case names => rwa [List.nil_append, sameNames] at left
  case declared =>
    intro name member
    rw [names, left, List.nil_append, List.mem_eraseDups] at member
    exact exists_last_of_mem member
  case entries =>
    intro earlier entry later split undeclared whole
    obtain ⟨between, bound, others⟩ := since split
    rw [globally]
    exact others.keep undeclared bound whole
  case arrays =>
    intro earlier name dims programs later split undeclared
    obtain ⟨between, bound, others⟩ := since split
    have filled :
        (Grid.ofElements dims programs).elements.size = dims.prod := by
      rw [Grid.size_ofElements, Grid.capacity_eq_prod]
    obtain ⟨grid, boundAfter, rewritten⟩ :=
      others.rewrite undeclared bound filled
    refine ⟨grid, globally name ▸ boundAfter, rewritten.dims,
      rewritten.size.trans filled, ?_⟩
    intro tuple place found
    rw [rewritten.offset] at found
    rw [rewritten.element, Grid.element_ofElements found]
    cases lastAssigned? name tuple later <;> rfl
  case kinds =>
    intro name
    rw [globally]
    exact describes name
  case references =>
    intro params tree
    refine Compile.expr_congr (fun name => ?_) tree
    exact (describes name).trans
      (Signatures.Describe.ofEntries distinct name).symm

/--
The last write counts.  When a source has been loaded, its statements have been
carried out one after the other, and the machine is left by the events they have
come to: its names are in the order of their first declaration, each is bound to
its last declaration, elements of arrays are those assigned last since then, and
every program is the one that it would be if all names had been known before.
-/
theorem last_write_of_load
    {file source : String}
    {machine next : Machine}
    (loads : load .replace file source machine = .ok () next) :
    ∃ program signatures events built,
      parse file source = .ok program ∧
        Compile.declareAll Signatures.empty program = .ok signatures ∧
        CarriedOut signatures (ofConfig machine.config) program events built ∧
        next = commit .replace machine built ∧
        LeftBy program signatures events next := by
  obtain ⟨program, signatures, built, parsed, declared, succeeds, rfl⟩ :=
    load_eq_ok_iff.mp loads
  obtain ⟨events, carriedOut, written⟩ := exists_carriedOut succeeds
  obtain ⟨globals, effects, rebound⟩ := effects_of_statements succeeds
  have outside : built.scopes.frames = [] := by
    rw [rebound.scopes]
    rfl
  have isGlobals : built.scopes.globals = globals := by rw [rebound.scopes]
  have distinct : built.scopes.globals.names.Nodup := by
    rw [isGlobals]
    exact effects.preserve (fun bindings => bindings.names.Nodup)
      (fun _ _ _ _ effect => effect.nodup) List.nodup_nil
  have describes : signatures.Describe built.scopes.globals := by
    rw [isGlobals]
    exact effects.describe declared (.ofEntries List.nodup_nil)
  exact ⟨program, signatures, events, built, parsed, declared, carriedOut, rfl,
    leftBy_of_written written carriedOut.namesDeclared_eq outside
      distinct describes⟩

/--
A scalar becomes an array, one of its elements is assigned twice, another one
never, and a function refers to a name that is declared behind it.
-/
theorem last_write_of_load_redeclared :
    ∃ next : Machine,
      load .replace ""
          "a = 1; k = 1; a[2][2] = [1, 2]; f(x) = b; a[k][0] = 7; a[1][0] = k; b = 2;"
          (ofConfig {}) =
        .ok () next ∧
      (∃ program signatures events built,
        parse ""
            "a = 1; k = 1; a[2][2] = [1, 2]; f(x) = b; a[k][0] = 7; a[1][0] = k; b = 2;" =
          .ok program ∧
          Compile.declareAll Signatures.empty program = .ok signatures ∧
          CarriedOut signatures (ofConfig {}) program events built ∧
          next = commit .replace (ofConfig {}) built ∧
          LeftBy program signatures events next) ∧
      next.names = ["a", "k", "f", "b"] ∧
      next.find? "f" = some ⟨"f", .function ["x"] [.variable "b"]⟩ ∧
      next.find? "a" =
        some ⟨"a", .array ⟨[2, 2],
          #[Code.push (.int 1), Code.push (.int 2), [.variable "k"],
            Grid.blank]⟩⟩ := by
  have loads :
      load .replace ""
          "a = 1; k = 1; a[2][2] = [1, 2]; f(x) = b; a[k][0] = 7; a[1][0] = k; b = 2;"
          (ofConfig {}) =
        .ok () { ofConfig {} with
          scopes := ⟨⟨[
            ⟨"a", .array ⟨[2, 2],
              #[Code.push (.int 1), Code.push (.int 2), [.variable "k"],
                Grid.blank]⟩⟩,
            ⟨"k", .scalar (Code.push (.int 1))⟩,
            ⟨"f", .function ["x"] [.variable "b"]⟩,
            ⟨"b", .scalar (Code.push (.int 2))⟩]⟩, []⟩ } := by
    decide +kernel
  exact ⟨_, loads, last_write_of_load loads, rfl, rfl, rfl⟩

end Machine

end Formulary
