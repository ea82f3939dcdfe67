import Formulary.Proofs.Entry.Grid
import Formulary.Proofs.Eval.Simulation
import Formulary.Proofs.Load.Loaded

namespace Formulary

open Stateful

/-!
# Compiled programs on loaded machines

The entries of a loaded machine are compiled from the expressions of its
sources, so they stand for meanings made of formulas.  Whatever the parser gives
and the compiler accepts then runs on the machine as its tree says.
-/

/--
What the global names of a machine stand for, as far as its entries can tell.
-/
def Bindings.Means
    (bindings : Bindings)
    (globals : String → Option Meaning) :
    Prop :=
  ∀ name, Option.Rel (Meaning.StandsIn name) (globals name) (bindings.get? name)

namespace Bindings.Means

/-- Binding an entry and what it stands for. -/
theorem insert
    {bindings : Bindings}
    {globals : String → Option Meaning}
    (means : bindings.Means globals)
    {name : String}
    {definition : Definition}
    {meaning : Meaning}
    (represents : meaning.Represents definition) :
    (bindings.insert ⟨name, definition⟩).Means
      (Function.update globals name (some meaning)) := by
  intro other
  by_cases same : other = name
  · subst same
    rw [Function.update_self]
    have found := get?_insert_self bindings ⟨other, definition⟩
    rw [found]
    exact .some ⟨rfl, represents⟩
  · rw [Function.update_of_ne same, get?_insert_of_ne bindings (Ne.symm same)]
    exact means other

end Bindings.Means

namespace Load

/-- The programs of written elements, with fillers behind them. -/
theorem compiles_ofElements
    {signatures : Signatures}
    {elements : List Expr}
    {programs : List Code}
    (written : ∀ element ∈ elements, Grammar.Written element)
    (compiled :
      List.Forall₂
        (fun element code => Compile.expr signatures [] element = .ok code)
        elements programs)
    (dims : List Nat) :
    ∃ formulas, List.Forall₂ Formula.Compiles formulas
      (Grid.ofElements dims programs).elements.toList := by
  have each : List.Forall₂ Formula.Compiles (elements.map fun element =>
    ⟨signatures, element⟩)
      programs := by
    rw [List.forall₂_map_left_iff]
    have both :=
      (List.forall₂_and_left elements programs).mpr ⟨written, compiled⟩
    exact both.imp fun element code ⟨isWritten, compiles⟩ =>
      .compiled isWritten compiles
  have fillers (count : Nat) : List.Forall₂ Formula.Compiles
      (List.replicate count (Formula.constant (.int 0)))
      (List.replicate count Grid.blank) := by
    induction count with
    | zero => exact .nil
    | succ count inductionHypothesis =>
        exact .cons .constant inductionHypothesis
  exact ⟨_, List.rel_append (List.forall₂_take (Grid.capacity dims) each)
    (fillers (Grid.capacity dims - programs.length))⟩

/-- A new program for an element. -/
theorem compiles_set
    {formulas : List Formula}
    {programs : List Code}
    (compile : List.Forall₂ Formula.Compiles formulas programs)
    {formula : Formula}
    {code : Code}
    (compiles : formula.Compiles code)
    (offset : Nat) :
    List.Forall₂ Formula.Compiles (formulas.set offset formula)
      (programs.set offset code) := by
  induction compile generalizing offset with
  | nil => exact .nil
  | cons first rest inductionHypothesis =>
      cases offset with
      | zero => exact .cons compiles rest
      | succ offset => exact .cons first (inductionHypothesis offset)

/--
After a statement of written expressions, names still stand for something.
-/
theorem Effect.means
    {signatures : Signatures}
    {config : Config}
    {action : Action}
    {before after : Bindings}
    (effect : Effect signatures config action before after)
    (written : ∀ tree ∈ action.stored, Grammar.Written tree)
    (means : ∃ globals, before.Means globals) :
    ∃ globals, after.Means globals := by
  obtain ⟨globals, means⟩ := means
  cases effect with
  | scalar compiled =>
      exact ⟨_, means.insert
        (.scalar (.compiled (written _ List.mem_cons_self) compiled))⟩
  | function compiled =>
      exact ⟨_, means.insert
        (.function (.compiled (written _ List.mem_cons_self) compiled))⟩
  | curve =>
      exact ⟨_, means.insert .curve⟩
  | @array globals name sizes elements dims programs sized fits compiled =>
      obtain ⟨formulas, compile⟩ := compiles_ofElements written compiled dims
      exact ⟨_, means.insert (.array compile)⟩
  | @assign globals name subscripts value grid changed tuple code known
        compiled set =>
      have related := means name
      rw [known] at related
      obtain ⟨formulas, compile⟩ :
          ∃ formulas,
            List.Forall₂ Formula.Compiles formulas grid.elements.toList := by
        cases meaning : globals name with
        | none =>
            rw [meaning] at related
            cases related
        | some found =>
            rw [meaning] at related
            cases related with
            | some stands =>
                cases stands.2 with
                | array compile => exact ⟨_, compile⟩
      obtain ⟨offset, -, rfl⟩ := Grid.of_set set
      have changedCompile : List.Forall₂ Formula.Compiles
          (formulas.set offset ⟨signatures, value⟩)
          (grid.elements.setIfInBounds offset code).toList := by
        rw [Array.toList_setIfInBounds]
        exact compiles_set compile
          (.compiled (written _ List.mem_cons_self) compiled) offset
      exact ⟨_, means.insert (.array changedCompile)⟩
  | print => exact ⟨globals, means⟩

end Load

namespace Machine

/--
The global names of a loaded machine stand for meanings made of written
formulas.
-/
theorem Loaded.means
    {machine : Machine}
    (loaded : machine.Loaded) :
    ∃ globals, machine.scopes.globals.Means globals := by
  refine loaded.globals (fun bindings => ∃ globals, bindings.Means globals)
    ⟨fun _ => none, fun _ => .none⟩ ?_
  intro file source program signatures config statement before after parsed
    member effect means
  exact effect.means
    (fun tree stored => written_of_parse parsed member stored) means

/--
Compiler correctness.  On a loaded machine, take any meanings of its global
names; there are some.  A tree of the parser that compiles, under whatever
signatures and parameters, then runs as the walk over the tree says: with any
levels of nesting left, inside any active calls and on any stack, the program
leaves the stack with the one value of the tree on it, or it fails with the
failure the walk meets first, having counted the same steps.
-/
theorem runProgram_compiled
    {machine : Machine}
    (loaded : machine.Loaded)
    {tree : Expr}
    (produced : Parse.Produces tree)
    {signatures : Signatures}
    {params : List String}
    {code : Code}
    (compiled : Compile.expr signatures params tree = .ok code) :
    (∃ globals, machine.scopes.globals.Means globals) ∧
      ∀ globals, machine.scopes.globals.Means globals →
        ∀ (config : Config) (levels : Nat) (calls : List Call)
          (frame : Option Nat)
          (stack : Stack) (steps callDepth : Nat),
          match
            Walk.formula config levels ⟨globals, calls⟩ frame
              ⟨signatures, tree⟩ stack.depth steps
          with
          | .ok value later =>
              Eval.runProgram config levels
                ⟨machine.scopes.globals, calls.map Call.frame⟩ frame
                  code ⟨stack, steps, callDepth⟩ =
                .ok () ⟨stack.push (.literal value), later, callDepth⟩
          | .error failure later =>
              ∃ rubble,
                Eval.runProgram config levels
                  ⟨machine.scopes.globals, calls.map Call.frame⟩ frame
                    code ⟨stack, steps, callDepth⟩ =
                  .error failure
                    ⟨⟨rubble ++ stack.cells⟩, later, callDepth⟩ := by
  refine ⟨loaded.means, ?_⟩
  intro globals means config levels calls frame stack steps callDepth
  have mirrors :
      (⟨globals, calls⟩ : Context).Mirrors
        ⟨machine.scopes.globals, calls.map Call.frame⟩ :=
    ⟨means, rfl⟩
  have mimics :=
    Eval.runProgram_follows config levels _ _ frame _ _ mirrors
      (.compiled produced.written compiled)
  split
  · rename_i value later walked
    exact mimics.succeeds stack.cells callDepth walked
  · rename_i failure later walked
    exact mimics.fails stack.cells callDepth walked

/--
The body of a function, run inside a call of it: the square of the argument plus
one.
-/
theorem runProgram_compiled_body :
    ∃ machine : Machine, machine.Loaded ∧ machine.names = ["f", "y"] ∧
      Eval.runProgram {} 2
        ⟨machine.scopes.globals, [(Call.mk ["x"] [.int 3]).frame]⟩ (some 1)
          [.variable "x", .op .square, .literal (.int 1), .op (.binary .add)]
          ⟨Stack.empty, 0, 0⟩ =
        .ok () ⟨Stack.empty.push (.literal (.int 10)), 5, 0⟩ := by
  have parses : ∃ tokens tree next,
      Token.scan "x ^ 2 + 1" = .ok tokens ∧
        Parse.expression 20 ⟨Token.clean tokens, none⟩ = .ok (tree, next) ∧
        Compile.expr Signatures.empty ["x"] tree =
          .ok [.variable "x", .op .square, .literal (.int 1),
            .op (.binary .add)] ∧
        ∀ globals, Walk.formula {} 2 ⟨globals, [⟨["x"], [.int 3]⟩]⟩ (some 1)
          ⟨Signatures.empty, tree⟩ 0 0 = .ok (.int 10) 5 := by
    refine ⟨[⟨⟨1, 1⟩, .name "x"⟩, ⟨⟨1, 3⟩, .operator .pow⟩,
      ⟨⟨1, 5⟩, .literal (.int 2)⟩, ⟨⟨1, 7⟩, .operator .add⟩,
      ⟨⟨1, 9⟩, .literal (.int 1)⟩, ⟨⟨1, 10⟩, .eof⟩], _, _, ?_, rfl, ?_, ?_⟩
    · decide +kernel
    · decide +kernel
    · intro globals
      rfl
  obtain ⟨machine, loaded, entries⟩ := exists_loaded
  obtain ⟨tokens, tree, next, scanned, parsed, compiled, walked⟩ := parses
  have named : machine.names = ["f", "y"] :=
    congrArg (List.map Entry.name) entries
  have produced : Parse.Produces tree :=
    ⟨_, tokens, 20, _, next, scanned, List.suffix_rfl, parsed⟩
  obtain ⟨⟨globals, means⟩, runs⟩ :=
    runProgram_compiled loaded produced compiled
  have run :=
    runs globals means {} 2 [⟨["x"], [.int 3]⟩] (some 1) Stack.empty 0 0
  have depth : Stack.empty.depth = 0 := rfl
  rw [depth, walked globals] at run
  exact ⟨machine, loaded, named, run⟩

end Machine

end Formulary
