import Formulary.Proofs.Eval.Walk
import Formulary.Proofs.Source.Program
import Mathlib.Data.List.Forall2

namespace Formulary

/-!
# Scopes and what their names stand for

A context says with formulas what scopes hold as programs.  Under both policies
of name resolution a name finds the same thing on both sides.
-/

/--
A program that is compiled from a formula that is written somewhere, or pushes a
value.
-/
inductive Formula.Compiles : Formula → Code → Prop where
  | constant
      {signatures : Signatures}
      {position : Position}
      {value : Value} :
      Compiles ⟨signatures, .literal position value⟩ (Code.push value)
  | compiled
      {signatures : Signatures}
      {params : List String}
      {tree : Expr}
      {code : Code}
      (written : Grammar.Written tree)
      (succeeds : Compile.expr signatures params tree = .ok code) :
      Compiles ⟨signatures, tree⟩ code

/-- A definition whose programs are compiled from the formulas of a meaning. -/
inductive Meaning.Represents : Meaning → Definition → Prop where
  | scalar
      {formula : Formula}
      {code : Code}
      (compiles : formula.Compiles code) :
      Represents (.scalar formula) (.scalar code)
  | array
      {grid : Grid}
      {elements : List Formula}
      (compile : List.Forall₂ Formula.Compiles elements grid.elements.toList) :
      Represents (.array grid.dims elements) (.array grid)
  | function
      {params : List String}
      {body : Formula}
      {code : Code}
      (compiles : body.Compiles code) :
      Represents (.function params body) (.function params code)
  | curve
      {curve : Curve} :
      Represents (.curve curve) (.curve curve)

/-- An entry of a given name that holds what a meaning says. -/
def Meaning.StandsIn
    (name : String)
    (meaning : Meaning)
    (entry : Entry) :
    Prop :=
  entry.name = name ∧ meaning.Represents entry.definition

/-- The frame of a call. -/
def Call.frame (call : Call) : Bindings :=
  Bindings.ofArguments call.params (Eval.literals call.values)

/-- Scopes that hold the programs of what names stand for. -/
structure Context.Mirrors (context : Context) (scopes : Scopes) : Prop where
  globals :
    ∀ name, Option.Rel (Meaning.StandsIn name) (context.globals name)
      (scopes.globals.get? name)
  frames : scopes.frames = context.calls.map Call.frame

namespace Bindings

/-- Of entries bound one after the other, a name finds the last one. -/
theorem get?_foldl_insert
    (entries : List Entry)
    (bindings : Bindings)
    (name : String) :
    (entries.foldl insert bindings).get? name =
      (entries.reverse.find? fun entry => entry.name = name).or
        (bindings.get? name) := by
  induction entries generalizing bindings with
  | nil => rfl
  | cons first rest inductionHypothesis =>
      rw [List.foldl_cons, inductionHypothesis, List.reverse_cons,
        List.find?_append, Option.or_assoc]
      congr 1
      by_cases same : first.name = name
      · subst same
        simp
      · simp [get?_insert_of_ne bindings same, same]

/-- A frame binds each parameter to its argument. -/
theorem get?_frame
    (call : Call)
    (name : String) :
    call.frame.get? name =
      (call.argument? name).map fun value =>
        Entry.argument name (.literal value) := by
  obtain ⟨params, values⟩ := call
  have zipped :
      List.zipWith Entry.argument params (Eval.literals values) =
        (params.zip values).map fun bound =>
          Entry.argument bound.1 (.literal bound.2) := by
    rw [Eval.literals, List.zipWith_map_right, List.zip, List.map_zipWith]
  simp only [Call.frame, ofArguments, ofEntries, get?_foldl_insert, zipped,
    Call.argument?, ← List.map_reverse, List.find?_map, Option.map_map]
  have none : empty.get? name = none := rfl
  rw [none, Option.or_none]
  cases found : (params.zip values).reverse.find? fun bound =>
      bound.1 = name with
  | none =>
      simpa [Function.comp_def, Entry.argument] using found
  | some bound =>
      have named : bound.1 = name := by
        simpa using List.find?_some found
      simp only [Function.comp_def, Entry.argument] at found ⊢
      simp [found, named]

end Bindings

namespace Context.Mirrors

variable
  {context : Context}
  {scopes : Scopes}
  (mirrors : context.Mirrors scopes)
include mirrors

theorem depth : scopes.depth = context.depth := by
  simp [Scopes.depth, Context.depth, mirrors.frames]

/-- Entering a call on both sides. -/
theorem push
    (params : List String)
    (values : List Value) :
    (context.push ⟨params, values⟩).Mirrors
      (scopes.push (Bindings.ofArguments params (Eval.literals values))) :=
  ⟨mirrors.globals,
    by simp [Scopes.push, Context.push, mirrors.frames, Call.frame]⟩

end Context.Mirrors

/-- A parameter stands for its argument. -/
theorem Context.standsIn_parameter
    (name : String)
    (found : Option Value) :
    Option.Rel (Meaning.StandsIn name) (found.map Context.parameter)
      (found.map fun value => Entry.argument name (.literal value)) := by
  cases found with
  | none => exact .none
  | some value => exact .some ⟨rfl, .scalar .constant⟩

/-- Two searches that agree, one after the other. -/
theorem Option.Rel.or
    {related : α → β → Prop}
    {a b : Option α}
    {c d : Option β}
    (first : Option.Rel related a c)
    (second : Option.Rel related b d) :
    Option.Rel related (a.or b) (c.or d) := by
  cases first with
  | some holds => exact .some holds
  | none => exact second

/-- A name stands for the same thing on both sides. -/
theorem Context.Mirrors.lookup?
    {context : Context}
    {scopes : Scopes}
    (mirrors : context.Mirrors scopes)
    (config : Config)
    (frame : Option Nat)
    (name : String) :
    Option.Rel (Meaning.StandsIn name) (context.lookup? config frame name)
      (Eval.lookup? config scopes frame name) := by
  unfold Context.lookup? Eval.lookup?
  cases config.nameResolution with
  | dynamic =>
      simp only [Scopes.find?, Option.orElse_eq_orElse, Option.orElse_eq_or]
      refine Option.Rel.or ?_ (mirrors.globals name)
      rw [mirrors.frames, List.findSome?_map, Function.comp_def]
      have everywhere :
          (context.calls.findSome? fun call => call.frame.get? name) =
            (context.calls.findSome? fun call => call.argument? name).map
              fun value => Entry.argument name (.literal value) := by
        simp only [Bindings.get?_frame, List.map_findSome?, Function.comp_def]
      rw [everywhere]
      exact standsIn_parameter name _
  | lexical =>
      simp only [Scopes.resolve?, Option.orElse_eq_orElse, Option.orElse_eq_or]
      refine Option.Rel.or ?_ (mirrors.globals name)
      cases frame with
      | none => exact .none
      | some index =>
          cases index with
          | zero => exact mirrors.globals name
          | succ index =>
              simp only [Option.bind_some, Option.bind_eq_bind, inScope?,
                Scopes.scope?, mirrors.frames, ← List.map_reverse,
                List.getElem?_map]
              cases context.calls.reverse[index]? with
              | none => exact .none
              | some call =>
                  simp only [Option.map_some, Option.bind_some,
                    Bindings.get?_frame]
                  exact standsIn_parameter name _

end Formulary
