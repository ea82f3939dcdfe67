import Formulary.Proofs.Eval.Fitted

namespace Formulary

open Stateful

/-!
# Cyclic definitions

Programs have no conditionals, so an entry has a value only when every entry its
program refers to has one.  When names are resolved lexically, an entry that
leads to a cycle of references therefore has none, whatever the arguments are
and however many levels there are: each level that is left only defers to the
next entry of the cycle.
-/

/-- A scalar or a function. -/
def Entry.IsFormula (entry : Entry) : Prop :=
  entry.kind = .scalar ∨ entry.kind = .function

/--
A formula refers to another one by its value, its name being no parameter, or by
a call.
-/
structure Entry.Uses (globals : Bindings) (user used : Entry) : Prop where
  isFormula : user.IsFormula
  usesFormula : used.IsFormula
  declared : used ∈ globals.entries
  refers :
    ∃ code ∈ user.programs,
      (.variable used.name ∈ code ∧ used.name ∉ user.params) ∨
        ∃ arity, .call used.name arity ∈ code

/-- An entry leads to one that uses itself, perhaps through others. -/
def Entry.Cyclic (globals : Bindings) (entry : Entry) : Prop :=
  ∃ other, Relation.ReflTransGen (Entry.Uses globals) entry other ∧
    Relation.TransGen (Entry.Uses globals) other other

/-- What leads to a cycle uses something that leads to it. -/
theorem Entry.Cyclic.next
    {globals : Bindings}
    {entry : Entry}
    (cyclic : entry.Cyclic globals) :
    ∃ used, entry.Uses globals used ∧ used.Cyclic globals := by
  obtain ⟨other, leads, cycle⟩ := cyclic
  rcases leads.cases_head with rfl | ⟨used, uses, rest⟩
  · obtain ⟨used, uses, rest⟩ := Relation.TransGen.head'_iff.mp cycle
    exact ⟨used, uses, entry, rest, cycle⟩
  · exact ⟨used, uses, other, rest, cycle⟩

namespace Eval

/-- An evaluation that fails in every state. -/
def NeverSucceeds (action : Eval α) : Prop :=
  ∀ run a next, action run ≠ .ok a next

namespace NeverSucceeds

theorem fail (fault : Fault) : NeverSucceeds (fail fault : Eval α) := by
  intro run a next succeeds
  cases succeeds

/-- What comes first never succeeds. -/
theorem ofFirst
    {first : Eval α}
    (never : NeverSucceeds first)
    (rest : α → Eval β) :
    NeverSucceeds (first >>= rest) := by
  intro run b last succeeds
  obtain ⟨a, next, firstSucceeds, -⟩ := bind_eq_ok.mp succeeds
  exact never run a next firstSucceeds

/-- What comes after a success never succeeds. -/
theorem ofRest
    {first : Eval α}
    {rest : α → Eval β}
    (never : ∀ run a next, first run = .ok a next → NeverSucceeds (rest a)) :
    NeverSucceeds (first >>= rest) := by
  intro run b last succeeds
  obtain ⟨a, next, firstSucceeds, restSucceeds⟩ := bind_eq_ok.mp succeeds
  exact never run a next firstSucceeds next b last restSucceeds

theorem inside
    {action : Eval α}
    (never : NeverSucceeds action)
    (entry : String) :
    NeverSucceeds (Eval.inside entry action) := by
  intro run a next succeeds
  unfold Eval.inside at succeeds
  split at succeeds
  · rename_i outcome
    exact never _ _ _ outcome
  · cases succeeds

theorem nested
    {action : Eval α}
    (never : NeverSucceeds action) :
    NeverSucceeds (Eval.nested action) := by
  intro run a next succeeds
  unfold Eval.nested at succeeds
  split at succeeds
  · rename_i outcome
    exact never _ _ _ outcome
  · cases succeeds

end NeverSucceeds

section Cells

variable
  {config : Config}
  {runner : Runner}
  {scopes : Scopes}
  {frame : Option Nat}

/-- A program with a cell that never succeeds never does. -/
theorem neverSucceeds_execCells
    {code : Code}
    {cell : Cell}
    (member : cell ∈ code)
    (never : NeverSucceeds (execCell config runner scopes frame cell)) :
    NeverSucceeds (execCells config runner scopes frame code) := by
  induction code with
  | nil => cases member
  | cons first rest inductionHypothesis =>
      refine .ofRest fun _ _ _ _ => ?_
      rcases List.mem_cons.mp member with rfl | inRest
      · exact .ofFirst never _
      · exact .ofRest fun _ _ _ _ => inductionHypothesis inRest

/-- A reference to an entry that never succeeds never does. -/
theorem neverSucceeds_reference
    {cell : Cell}
    {name : String}
    {entry : Entry}
    (reference : cell.reference? = some name)
    (found : lookup? config scopes frame name = some entry)
    (never : NeverSucceeds (apply config runner scopes entry)) :
    NeverSucceeds (execCell config runner scopes frame cell) := by
  rw [execCell_reference frame reference, resolve_eq, found, pure_bind]
  cases useFault? cell entry with
  | some fault => exact .fail fault
  | none => exact never

/-- A parameter cannot be called. -/
theorem neverSucceeds_call_argument
    {name param : String}
    {argument : Cell}
    (arity : Nat)
    (found :
      lookup? config scopes frame name = some (Entry.argument param argument)) :
    NeverSucceeds (execCell config runner scopes frame (.call name arity)) := by
  rw [execCell_reference frame rfl, resolve_eq, found, pure_bind]
  exact .fail _

end Cells

/--
A program never succeeds when one of its cells does not with the levels that are
left.
-/
theorem neverSucceeds_runProgram
    {config : Config}
    {levels : Nat}
    {scopes : Scopes}
    {frame : Option Nat}
    {code : Code}
    (never :
      ∀ fewer, levels = fewer + 1 →
        ∃ cell ∈ code,
          NeverSucceeds
            (execCell config (runProgram config fewer) scopes frame cell)) :
    NeverSucceeds (runProgram config levels scopes frame code) := by
  cases levels with
  | zero => exact .fail _
  | succ fewer =>
      obtain ⟨cell, member, cellNever⟩ := never fewer rfl
      exact .nested (neverSucceeds_execCells member cellNever)

section Lexical

variable
  {config : Config}
  (lexical : config.nameResolution = .lexical)
  {scopes : Scopes}
  (distinct : scopes.globals.names.Nodup)
  {used : Entry}
  (declared : used ∈ scopes.globals.entries)

include lexical distinct declared

/-- Outside every function, a name that is used stands for what is declared. -/
theorem neverSucceeds_outside
    {runner : Runner}
    (never : NeverSucceeds (apply config runner scopes used))
    {cell : Cell}
    (reference : cell.reference? = some used.name) :
    NeverSucceeds (execCell config runner scopes none cell) := by
  refine neverSucceeds_reference reference ?_ never
  rw [lookup?_outside lexical, Bindings.get?_of_mem distinct declared]

/-- So it does in the body of a function that has no parameter of this name. -/
theorem neverSucceeds_inside
    {runner : Runner}
    {frame : Bindings}
    (never : NeverSucceeds (apply config runner (scopes.push frame) used))
    (free : used.name ∉ frame.names)
    {cell : Cell}
    (reference : cell.reference? = some used.name) :
    NeverSucceeds (execCell config runner (scopes.push frame)
      (some scopes.depth) cell) := by
  refine neverSucceeds_reference reference ?_ never
  rw [lookup?_inside lexical, Bindings.get?_eq_none_iff.mpr free,
    Option.none_or, Bindings.get?_of_mem distinct declared]

/--
A call of a declared name never succeeds in a body, also where a parameter hides
the name.
-/
theorem neverSucceeds_call_inside
    {runner : Runner}
    {params : List String}
    {arguments : List Cell}
    (never :
      NeverSucceeds
        (apply config runner
          (scopes.push (Bindings.ofArguments params arguments)) used))
    (arity : Nat) :
    NeverSucceeds
      (execCell config runner
        (scopes.push (Bindings.ofArguments params arguments))
        (some scopes.depth) (.call used.name arity)) := by
  cases bound : (Bindings.ofArguments params arguments).get? used.name with
  | none =>
      exact neverSucceeds_inside lexical distinct declared never
        (Bindings.get?_eq_none_iff.mp bound) rfl
  | some entry =>
      obtain ⟨member, -⟩ := Bindings.mem_of_get? bound
      obtain ⟨param, argument, -, rfl⟩ := Bindings.mem_ofArguments member
      have hidden :
          lookup? config (scopes.push (Bindings.ofArguments params arguments))
              (some scopes.depth) used.name =
            some (Entry.argument param argument) := by
        rw [lookup?_inside lexical, bound, Option.some_or]
      exact neverSucceeds_call_argument arity hidden

end Lexical

/-- What uses an entry that never succeeds with fewer levels never succeeds. -/
theorem neverSucceeds_of_uses
    {config : Config}
    (lexical : config.nameResolution = .lexical)
    {scopes : Scopes}
    (distinct : scopes.globals.names.Nodup)
    {levels : Nat}
    {user used : Entry}
    (uses : user.Uses scopes.globals used)
    (never :
      ∀ fewer inner, levels = fewer + 1 → inner.globals = scopes.globals →
        NeverSucceeds (apply config (runProgram config fewer) inner used)) :
    NeverSucceeds (apply config (runProgram config levels) scopes user) := by
  obtain ⟨isFormula, -, declared, code, isProgram, refers⟩ := uses
  obtain ⟨name, definition⟩ := user
  refine .inside ?_ name
  cases definition with
  | scalar program =>
      obtain rfl := List.mem_singleton.mp isProgram
      refine neverSucceeds_runProgram fun fewer left => ?_
      have usedNever := never fewer scopes left rfl
      rcases refers with ⟨member, -⟩ | ⟨arity, member⟩
      · exact ⟨_, member,
          neverSucceeds_outside lexical distinct declared usedNever rfl⟩
      · exact ⟨_, member,
          neverSucceeds_outside lexical distinct declared usedNever rfl⟩
  | function params body =>
      obtain rfl := List.mem_singleton.mp isProgram
      refine .ofRest fun run arguments next popped => ?_
      have counted := length_of_popMany popped
      refine neverSucceeds_runProgram fun fewer left => ?_
      have usedNever := never fewer
        (scopes.push (Bindings.ofArguments params arguments)) left rfl
      rcases refers with ⟨member, free⟩ | ⟨arity, member⟩
      · have unbound :
            used.name ∉ (Bindings.ofArguments params arguments).names :=
          (Bindings.mem_names_ofArguments counted).not.mpr free
        exact ⟨_, member,
          neverSucceeds_inside lexical distinct declared usedNever unbound rfl⟩
      · exact ⟨_, member,
          neverSucceeds_call_inside lexical distinct declared usedNever arity⟩
  | array | curve =>
      rcases isFormula with isScalar | isFunction <;> contradiction

/--
An entry that leads to a cycle never succeeds, however many levels there are.
-/
theorem neverSucceeds_of_cyclic
    {config : Config}
    (lexical : config.nameResolution = .lexical)
    {globals : Bindings}
    (distinct : globals.names.Nodup)
    (levels : Nat)
    {entry : Entry}
    (cyclic : entry.Cyclic globals)
    {scopes : Scopes}
    (same : scopes.globals = globals) :
    NeverSucceeds (apply config (runProgram config levels) scopes entry) := by
  subst same
  induction levels generalizing entry scopes with
  | zero =>
      obtain ⟨used, uses, -⟩ := cyclic.next
      exact neverSucceeds_of_uses lexical distinct uses nofun
  | succ levels inductionHypothesis =>
      obtain ⟨used, uses, usedCyclic⟩ := cyclic.next
      refine neverSucceeds_of_uses lexical distinct uses
        fun fewer inner left sameGlobals => ?_
      obtain rfl := Nat.succ.inj left
      rw [← sameGlobals] at distinct usedCyclic
      exact inductionHypothesis distinct usedCyclic

end Eval

end Formulary
