import Formulary.Proofs.Eval.Reached
import Formulary.Proofs.Eval.Resolved

namespace Formulary

open Stateful

/-!
# References that fit what they refer to

A reference fits when it is made for a parameter of its own function, or, if
its name is not that of a parameter, for what is declared under the name.  When
names are resolved lexically, a body searches the frame of its own arguments and
then the global scope, so that the references of entries that fit find entries
of the signatures they are made for.  Every step of an evaluation preserves
that.
-/

/--
A reference is made for a parameter, or for what is declared under its name.
-/
def Cell.Fits
    (declared : String → Option Signature)
    (params : List String)
    (cell : Cell) :
    Prop :=
  ∀ name, cell.reference? = some name →
    cell.signature? = if name ∈ params then some .scalar else declared name

/-- Every reference in the programs of an entry fits. -/
def Entry.Fits (declared : String → Option Signature) (entry : Entry) : Prop :=
  ∀ code ∈ entry.programs, ∀ cell ∈ code, cell.Fits declared entry.params

/-- The signature of what a name is bound to. -/
def Bindings.signature?
    (bindings : Bindings)
    (name : String) :
    Option Signature :=
  (bindings.get? name).map Entry.signature

/-- A reference made for what its name is bound to has something to refer to. -/
theorem Bindings.exists_of_signature?
    {bindings : Bindings}
    {cell : Cell}
    {name : String}
    (reference : cell.reference? = some name)
    (expected : cell.signature? = bindings.signature? name) :
    ∃ entry, bindings.get? name = some entry ∧
      cell.signature? = some entry.signature := by
  obtain ⟨signature, made⟩ := Cell.exists_signature? reference
  rw [made] at expected
  obtain ⟨entry, found, same⟩ := Option.map_eq_some_iff.mp expected.symm
  exact ⟨entry, found, made.trans (congrArg some same.symm)⟩

/-- Every global entry fits, and frames hold the arguments of calls. -/
structure Scopes.Fitted (scopes : Scopes) : Prop where
  globals :
    ∀ entry ∈ scopes.globals.entries, entry.Fits scopes.globals.signature?
  frames :
    ∀ frame ∈ scopes.frames, ∀ entry ∈ frame.entries,
      ∃ param value, entry = Entry.argument param (.literal value)

/-- The arguments of a call. -/
theorem Bindings.argument_of_mem
    {params : List String}
    {values : List Value}
    {entry : Entry}
    (member : entry ∈ (ofArguments params (Eval.literals values)).entries) :
    ∃ param value, entry = Entry.argument param (.literal value) := by
  obtain ⟨param, cell, isArgument, rfl⟩ := mem_ofArguments member
  obtain ⟨value, -, rfl⟩ := List.mem_map.mp isArgument
  exact ⟨param, value, rfl⟩

theorem Scopes.Fitted.push
    {scopes : Scopes}
    (fitted : scopes.Fitted)
    (params : List String)
    (values : List Value) :
    (scopes.push
      (Bindings.ofArguments params (Eval.literals values))).Fitted := by
  refine ⟨fitted.globals, forall_frames_push fitted.frames params ?_⟩
  intro argument isArgument param
  obtain ⟨value, -, rfl⟩ := List.mem_map.mp isArgument
  exact ⟨param, value, rfl⟩

namespace Eval

/--
Every reference of a program finds an entry of the signature it is made for.
-/
def Suits
    (config : Config)
    (scopes : Scopes)
    (frame : Option Nat)
    (code : Code) :
    Prop :=
  ∀ cell ∈ code, ∀ name, cell.reference? = some name →
    ∃ entry, lookup? config scopes frame name = some entry ∧
      cell.signature? = some entry.signature

/-- A program that pushes a value refers to nothing. -/
theorem suits_push
    (config : Config)
    (scopes : Scopes)
    (frame : Option Nat)
    (value : Value) :
    Suits config scopes frame (Code.push value) := by
  intro cell member name reference
  obtain rfl := List.mem_singleton.mp member
  cases reference

section Lexical

variable
  {config : Config}
  (lexical : config.nameResolution = .lexical)

include lexical

/-- Outside every frame, only global names are searched. -/
theorem lookup?_outside
    (scopes : Scopes)
    (name : String) :
    lookup? config scopes none name = scopes.globals.get? name := by
  simp [lookup?, lexical, Scopes.resolve?]

/-- A body searches its own frame and then the global names. -/
theorem lookup?_inside
    (scopes : Scopes)
    (frame : Bindings)
    (name : String) :
    lookup? config (scopes.push frame) (some scopes.depth) name =
      (frame.get? name).or (scopes.globals.get? name) := by
  simp only [lookup?, lexical, Scopes.resolve?, Scopes.scope?_push,
    Option.bind_eq_bind, Option.bind_some, Option.orElse_eq_orElse,
    Option.orElse_eq_or]
  rfl

/-- A program without parameters. -/
theorem suits_outside
    {scopes : Scopes}
    {code : Code}
    (fits : ∀ cell ∈ code, cell.Fits scopes.globals.signature? []) :
    Suits config scopes none code := by
  intro cell member name reference
  have expected := fits cell member name reference
  rw [if_neg List.not_mem_nil] at expected
  rw [lookup?_outside lexical]
  exact Bindings.exists_of_signature? reference expected

/-- The body of a function on the arguments of a call. -/
theorem suits_inside
    {scopes : Scopes}
    {params : List String}
    {values : List Value}
    (counted : values.length = params.length)
    {body : Code}
    (fits : ∀ cell ∈ body, cell.Fits scopes.globals.signature? params) :
    Suits config (scopes.push (Bindings.ofArguments params (literals values)))
      (some scopes.depth) body := by
  intro cell member name reference
  have expected := fits cell member name reference
  have bound : name ∈ (Bindings.ofArguments params (literals values)).names ↔
      name ∈ params :=
    Bindings.mem_names_ofArguments ((length_literals values).trans counted)
  rw [lookup?_inside lexical]
  by_cases isParam : name ∈ params
  · rw [if_pos isParam] at expected
    obtain ⟨entry, found⟩ :=
      Option.isSome_iff_exists.mp
        (Bindings.isSome_get?_of_mem_names (bound.mpr isParam))
    obtain ⟨param, value, rfl⟩ :=
      Bindings.argument_of_mem (Bindings.mem_of_get? found).1
    exact ⟨Entry.argument param (.literal value), by rw [found, Option.some_or],
      expected⟩
  · rw [if_neg isParam] at expected
    rw [Bindings.get?_eq_none_iff.mpr (mt bound.mp isParam), Option.none_or]
    exact Bindings.exists_of_signature? reference expected

end Lexical

/-- A number of values lie on top of the stack. -/
def Holds (count : Nat) (run : Run) : Prop :=
  ∃ values below steps calls,
    values.length = count ∧ run = above values below steps calls

namespace Holds

theorem nothing (run : Run) : Holds 0 run :=
  ⟨[], run.stack.cells, run.steps, run.callDepth, rfl, rfl⟩

/-- What a confined evaluation leaves. -/
theorem confined
    {takes leaves : Nat}
    {action : Eval Unit}
    (confined : Confined takes leaves action)
    {run next : Run}
    (holds : Holds takes run)
    (succeeds : action run = .ok () next) :
    Holds leaves next := by
  obtain ⟨values, below, steps, calls, taken, rfl⟩ := holds
  rcases confined below.length steps calls values taken with
      ⟨results, resultsLength, later, leaves⟩ | ⟨failure, rubble, later, fails⟩
  · rw [leaves below rfl] at succeeds
    cases succeeds
    exact ⟨results, below, later, calls, resultsLength, rfl⟩
  · rw [fails below rfl] at succeeds
    cases succeeds

/-- Of the values on top, as many as are wanted are popped. -/
theorem popMany
    {held count : Nat}
    {run next : Run}
    (holds : Holds held run)
    (enough : count ≤ held)
    {cells : List Cell}
    (popped : popMany count run = .ok cells next) :
    ∃ values : List Value, values.length = count ∧ cells = literals values := by
  obtain ⟨values, below, steps, calls, rfl, rfl⟩ := holds
  have taken : (values.take count).length = count := by
    rw [List.length_take, Nat.min_eq_left enough]
  rw [above_take count, popMany_above taken] at popped
  cases popped
  exact ⟨(values.take count).reverse, by rw [List.length_reverse, taken], rfl⟩

end Holds

/-- A point from which every reference that is reached suits. -/
structure Point.Fitted (config : Config) (point : Point) : Prop where
  checked : point.scopes.Checked
  fitted : point.scopes.Fitted
  /-- The cells that are left find their operands. -/
  operands :
    ∃ index height finish,
      Code.heightFrom index height point.code = .ok finish ∧
        Holds height point.run
  suits : Suits config point.scopes point.frame point.code

namespace Point.Fitted

variable {config : Config}

theorem suited
    {point : Point}
    (fitted : point.Fitted config) :
    point.Suited config := by
  intro cell rest name next reference
  refine fitted.suits cell ?_ name reference
  rw [next]
  exact List.mem_cons_self

/-- At the start of a checked program. -/
theorem start
    {scopes : Scopes}
    (checked : scopes.Checked)
    (fitted : scopes.Fitted)
    {code : Code}
    (accepted : Code.check code = .ok ())
    {frame : Option Nat}
    (suits : Suits config scopes frame code)
    (levels : Nat)
    (run : Run) :
    (Point.start levels scopes frame code run).Fitted config where
  checked := checked
  fitted := fitted
  operands := ⟨0, 0, 1, Code.check_eq_ok.mp accepted, .nothing _⟩
  suits := suits

section Lexical

variable (lexical : config.nameResolution = .lexical)

include lexical

/-- At the start of the program that an entry runs on its operands. -/
theorem enters
    {scopes : Scopes}
    (checked : scopes.Checked)
    (fitted : scopes.Fitted)
    {entry : Entry}
    (member :
      (∃ frame ∈ scopes.frames, entry ∈ frame.entries) ∨
        entry ∈ scopes.globals.entries)
    {held : Nat}
    {run : Run}
    (holds : Holds held run)
    (enough : entry.operandCount ≤ held)
    {levels : Nat}
    {inner : Point}
    (enters : Enters levels scopes entry.definition run inner) :
    inner.Fitted config := by
  have entryChecked := checked.of_mem member
  rcases member with ⟨frame, isFrame, held⟩ | isGlobal
  · obtain ⟨param, value, rfl⟩ := fitted.frames frame isFrame entry held
    cases enters
    exact .start checked fitted (Code.check_push value)
      (suits_push config scopes none value) _ _
  · have fits := fitted.globals entry isGlobal
    obtain ⟨name, definition⟩ := entry
    cases enters with
    | scalar code =>
        have isProgram : code ∈ Entry.programs ⟨name, .scalar code⟩ := by
          simp [Entry.programs]
        exact .start checked fitted (entryChecked code isProgram)
          (suits_outside lexical (fits code isProgram)) _ _
    | @array grid _ next cells indices code popped read found =>
        refine .start checked fitted
          (check_of_element entryChecked found) ?_ _ _
        rcases Grid.mem_of_element found with isElement | rfl
        · exact suits_outside lexical (fits code isElement)
        · exact suits_push config scopes none (.int 0)
    | @function params body _ next arguments popped =>
        have isProgram :
            body ∈ Entry.programs ⟨name, .function params body⟩ := by
          simp [Entry.programs]
        obtain ⟨values, counted, rfl⟩ := holds.popMany enough popped
        exact .start (checked.push params values) (fitted.push params values)
          (entryChecked body isProgram)
          (suits_inside lexical counted (fits body isProgram)) _ _

/-- What one step preserves. -/
theorem step
    {point next : Point}
    (fitted : point.Fitted config)
    (step : Step config point next) :
    next.Fitted config := by
  obtain ⟨index, height, finish, heightened, holds⟩ := fitted.operands
  cases step with
  | @past levels scopes frame cell rest run ticked after counted executed =>
      simp only [Code.heightFrom] at heightened
      split at heightened
      · cases heightened
      · rename_i enough
        have held :=
          (holds.confined (confined_tick config height) counted).confined
          (confined_step (runProgram_confines config levels) fitted.checked
            frame enough) executed
        exact
          { checked := fitted.checked
            fitted := fitted.fitted
            operands := ⟨_, _, _, heightened, held⟩
            suits := fun other member =>
              fitted.suits other (List.mem_cons_of_mem cell member) }
  | @into levels scopes frame cell rest run ticked name entry inner counted
        reference found
      usable enters =>
      simp only [Code.heightFrom] at heightened
      split at heightened
      · cases heightened
      · rename_i enough
        have taken := operandCount_of_useFault? (by simp [reference]) usable
        exact .enters lexical fitted.checked fitted.fitted
          (mem_of_lookup? found)
          (holds.confined (confined_tick config height) counted)
          (by omega) enters

/-- What a whole evaluation preserves. -/
theorem reaches
    {point later : Point}
    (fitted : point.Fitted config)
    (reached : Reaches config point later) :
    later.Fitted config := by
  induction reached with
  | refl => exact fitted
  | tail _ step inductionHypothesis =>
      exact inductionHypothesis.step lexical step

end Lexical

end Point.Fitted

end Eval

end Formulary
