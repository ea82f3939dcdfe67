import Formulary.Proofs.Eval.Resolved

namespace Formulary

open Stateful

/-!
# Names without capture

A program that refers to a global name finds something else when the name is
also bound in a frame that is searched first.  Where no parameter is a global
name this cannot happen: a global name is bound in no frame at all, and a
parameter is found in the innermost frame, which is that of its own function.
Both policies then find the same entry for every name, and evaluations end
alike.
-/

/-- The same settings with another policy for names. -/
def Config.resolving (config : Config) (policy : NameResolution) : Config :=
  { config with nameResolution := policy }

/-- No parameter of a function, nor any name in a frame, is a global name. -/
structure Scopes.Apart (scopes : Scopes) : Prop where
  globals :
    ∀ entry ∈ scopes.globals.entries, ∀ param ∈ entry.params,
      param ∉ scopes.globals.names
  frames :
    ∀ frame ∈ scopes.frames, ∀ entry ∈ frame.entries,
      entry.params = [] ∧ entry.name ∉ scopes.globals.names

namespace Scopes.Apart

variable
  {scopes : Scopes}
  (apart : scopes.Apart)
include apart

/-- A call binds the parameters of its function. -/
theorem push
    {params : List String}
    (free : ∀ param ∈ params, param ∉ scopes.globals.names)
    {arguments : List Cell}
    (counted : arguments.length = params.length) :
    (scopes.push (Bindings.ofArguments params arguments)).Apart := by
  refine ⟨apart.globals, ?_⟩
  intro frame member entry held
  rcases List.mem_cons.mp member with rfl | old
  · have bound := List.mem_map_of_mem (f := Entry.name) held
    obtain ⟨param, cell, -, rfl⟩ := Bindings.mem_ofArguments held
    exact ⟨rfl, free _ ((Bindings.mem_names_ofArguments counted).mp bound)⟩
  · exact apart.frames frame old entry held

theorem of_mem
    {entry : Entry}
    (member :
      (∃ frame ∈ scopes.frames, entry ∈ frame.entries) ∨
        entry ∈ scopes.globals.entries) :
    ∀ param ∈ entry.params, param ∉ scopes.globals.names := by
  rcases member with ⟨frame, isFrame, held⟩ | isGlobal
  · intro param isParam
    rw [(apart.frames frame isFrame entry held).1] at isParam
    cases isParam
  · exact apart.globals entry isGlobal

/-- A global name is bound in no frame. -/
theorem get?_frame
    {frame : Bindings}
    (member : frame ∈ scopes.frames)
    {name : String}
    (isGlobal : name ∈ scopes.globals.names) :
    frame.get? name = none := by
  rw [Bindings.get?_eq_none_iff]
  intro bound
  obtain ⟨entry, held, rfl⟩ := List.mem_map.mp bound
  exact (apart.frames frame member entry held).2 isGlobal

/-- A global name stands for the global entry under either policy. -/
theorem lookup?_global
    (config : Config)
    (frame : Option Nat)
    {name : String}
    (isGlobal : name ∈ scopes.globals.names) :
    Eval.lookup? config scopes frame name = scopes.globals.get? name := by
  unfold Eval.lookup?
  cases config.nameResolution with
  | dynamic =>
      have unbound :
          (scopes.frames.findSome? fun frame => frame.get? name) = none := by
        rw [List.findSome?_eq_none_iff]
        exact fun frame member => apart.get?_frame member isGlobal
      simp only [Scopes.find?, unbound]
      rfl
  | lexical =>
      simp only [Scopes.resolve?, Option.orElse_eq_orElse, Option.orElse_eq_or]
      cases own : (do (← scopes.scope? (← frame)).get? name) with
      | none => rfl
      | some entry =>
          simp only [Option.bind_eq_bind, Option.bind_eq_some_iff] at own
          obtain ⟨index, -, bindings, scope, bound⟩ := own
          rcases Scopes.mem_of_scope? scope with isFrame | rfl
          · rw [apart.get?_frame isFrame isGlobal] at bound
            cases bound
          · exact bound.symm

end Scopes.Apart

namespace Eval

/-- The names of a program stand for the same entries under two settings. -/
def SameNames
    (config other : Config)
    (scopes : Scopes)
    (frame : Option Nat)
    (code : Code) :
    Prop :=
  ∀ cell ∈ code, ∀ name, cell.reference? = some name →
    lookup? config scopes frame name = lookup? other scopes frame name

/-- Global names stand for the same entries in every frame. -/
theorem SameNames.ofGlobals
    (config other : Config)
    {scopes : Scopes}
    (apart : scopes.Apart)
    (frame : Option Nat)
    {code : Code}
    (isGlobal :
      ∀ cell ∈ code, ∀ name,
        cell.reference? = some name → name ∈ scopes.globals.names) :
    SameNames config other scopes frame code := by
  intro cell member name reference
  have known := isGlobal cell member name reference
  rw [apart.lookup?_global config frame known,
    apart.lookup?_global other frame known]

/--
Two evaluations that end in the same way on every stack with so many values on
top.
-/
def Alike (takes : Nat) (first second : Eval Unit) : Prop :=
  ∀ (values : List Value) (below : List Cell) (steps calls : Nat),
    values.length = takes →
    first (above values below steps calls) =
      second (above values below steps calls)

namespace Alike

theorem refl
    (takes : Nat)
    (action : Eval Unit) :
    Alike takes action action :=
  fun _ _ _ _ _ => rfl

/--
One evaluation after another, when the first leaves what the second takes.
-/
theorem andThen
    {takes between : Nat}
    {first second firstOther secondOther : Eval Unit}
    (confined : Confined takes between first)
    (firstAlike : Alike takes first firstOther)
    (secondAlike : Alike between second secondOther) :
    Alike takes (first >>= fun _ => second)
      (firstOther >>= fun _ => secondOther) := by
  intro values below steps calls taken
  have same := firstAlike values below steps calls taken
  rcases confined below.length steps calls values taken with
      ⟨results, resultsLength, later, succeeds⟩
        | ⟨failure, rubble, later, fails⟩
  · have here := succeeds below rfl
    rw [bind_of_ok here, bind_of_ok (same.symm.trans here)]
    exact secondAlike results below later calls resultsLength
  · have here := fails below rfl
    rw [bind_of_error here, bind_of_error (same.symm.trans here)]

/-- More values may lie below those that are taken. -/
theorem extend
    {takes : Nat}
    {first second : Eval Unit}
    (alike : Alike takes first second)
    (more : Nat) :
    Alike (takes + more) first second := by
  intro values below steps calls taken
  rw [above_take takes]
  exact alike (values.take takes) _ steps calls
    (by rw [List.length_take]; omega)

theorem inside
    {takes : Nat}
    {first second : Eval Unit}
    (alike : Alike takes first second)
    (entry : String) :
    Alike takes (Eval.inside entry first) (Eval.inside entry second) := by
  intro values below steps calls taken
  simp only [Eval.inside, alike values below steps calls taken]

theorem nested
    {takes : Nat}
    {first second : Eval Unit}
    (alike : Alike takes first second) :
    Alike takes (Eval.nested first) (Eval.nested second) := by
  intro values below steps calls taken
  have entered := alike values below steps (calls + 1) taken
  simp only [above] at entered ⊢
  simp only [Eval.nested, entered]

theorem ofPopMany
    {takes : Nat}
    {first second : List Cell → Eval Unit}
    (alike :
      ∀ values : List Value, values.length = takes →
        Alike 0 (first (literals values)) (second (literals values))) :
    Alike takes (popMany takes >>= first) (popMany takes >>= second) := by
  intro values below steps calls taken
  have popped := popMany_above taken below steps calls
  rw [bind_of_ok popped, bind_of_ok popped]
  exact alike values.reverse (by simpa using taken) [] below steps calls rfl

theorem ofExcept
    {takes : Nat}
    {result : Except Fault α}
    {first second : α → Eval Unit}
    (alike : ∀ a, result = .ok a → Alike takes (first a) (second a)) :
    Alike takes (ofExcept result >>= first) (ofExcept result >>= second) := by
  cases result with
  | ok a => exact alike a rfl
  | error fault => exact fun _ _ _ _ _ => rfl

end Alike

/-- Two ways of running programs whose names stand for the same entries. -/
def Runner.Agree (config other : Config) (runner otherRunner : Runner) : Prop :=
  ∀ (scopes : Scopes) (frame : Option Nat) (code : Code),
    scopes.Checked → scopes.Linked → scopes.Apart → Code.check code = .ok () →
      SameNames config other scopes frame code →
        Alike 0 (runner scopes frame code) (otherRunner scopes frame code)

section Programs

variable
  {config : Config}
  {policy : NameResolution}
  {runner otherRunner : Runner}
  (agree : runner.Agree config (config.resolving policy) otherRunner)
  {scopes : Scopes}
  (checked : scopes.Checked)
  (linked : scopes.Linked)
  (apart : scopes.Apart)

include agree checked linked apart

/-- An entry on its operands. -/
theorem alike_apply
    {entry : Entry}
    (entryChecked : entry.Checked)
    (closed : entry.RefersTo (· ∈ scopes.globals.names))
    (free : ∀ param ∈ entry.params, param ∉ scopes.globals.names) :
    Alike entry.operandCount (apply config runner scopes entry)
      (apply (config.resolving policy) otherRunner scopes entry) := by
  refine Alike.inside ?_ entry.name
  obtain ⟨name, definition⟩ := entry
  -- Programs that are run outside every frame refer to global names.
  have outside {code : Code}
    (isProgram : code ∈ Entry.programs ⟨name, definition⟩)
      (noParams : Entry.params ⟨name, definition⟩ = []) :
      SameNames config (config.resolving policy) scopes none code := by
    refine .ofGlobals _ _ apart none fun cell isCell reference refers => ?_
    rcases closed code isProgram cell isCell reference refers with
        isGlobal | isParam
    · exact isGlobal
    · rw [noParams] at isParam
      cases isParam
  cases definition with
  | scalar code =>
      have isProgram : code ∈ Entry.programs ⟨name, .scalar code⟩ := by
        simp [Entry.programs]
      exact agree scopes none code checked linked apart
        (entryChecked code isProgram) (outside isProgram rfl)
  | array grid =>
      refine .ofPopMany fun values _ => .ofExcept fun indices _ =>
        .ofExcept fun code found => ?_
      have element := except_mapError_eq_ok.mp found
      refine agree scopes none code checked linked apart
        (check_of_element entryChecked element) ?_
      rcases Grid.mem_of_element element with isElement | rfl
      · exact outside isElement rfl
      · intro cell isCell reference refers
        obtain rfl := List.mem_singleton.mp isCell
        cases refers
  | function params body =>
      have isProgram : body ∈ Entry.programs ⟨name, .function params body⟩ := by
        simp [Entry.programs]
      refine .ofPopMany fun values counted => ?_
      have length := (length_literals values).trans counted
      have pushed :
          (scopes.push (Bindings.ofArguments params (literals values))).Apart :=
        apart.push free length
      refine agree _ _ body (checked.push params values)
        (linked.push params values) pushed (entryChecked body isProgram) ?_
      intro cell isCell reference refers
      rcases closed body isProgram cell isCell reference refers with
          isGlobal | isParam
      · rw [pushed.lookup?_global config _ isGlobal,
          pushed.lookup?_global _ _ isGlobal]
      · have bound := (Bindings.mem_names_ofArguments length).mpr isParam
        rw [lookup?_param config scopes bound, lookup?_param _ scopes bound]
  | curve curve => exact .refl 1 _

/-- A reference whose name stands for the same entry. -/
theorem alike_reference
    {frame : Option Nat}
    {cell : Cell}
    {name : String}
    (reference : cell.reference? = some name)
    (same :
      lookup? config scopes frame name =
        lookup? (config.resolving policy) scopes frame name) :
    Alike cell.pops (execCell config runner scopes frame cell)
      (execCell (config.resolving policy) otherRunner scopes frame cell) := by
  rw [execCell_reference frame reference, execCell_reference frame reference,
    resolve_eq, resolve_eq, ← same]
  cases found : lookup? config scopes frame name with
  | none => exact .refl _ _
  | some entry =>
      have member := mem_of_lookup? found
      simp only [pure_bind]
      cases use : useFault? cell entry with
      | some fault => exact .refl _ _
      | none =>
          rw [← operandCount_of_useFault? (by rw [reference]; rfl) use]
          exact alike_apply agree checked linked apart (checked.of_mem member)
            (linked.of_mem member) (apart.of_mem member)

/-- Cells find as many values as the height says. -/
theorem alike_execCells
    (confines : runner.Confines)
    (frame : Option Nat)
    {code : Code}
    {index start finish : Nat}
    (height : Code.heightFrom index start code = .ok finish)
    (same : SameNames config (config.resolving policy) scopes frame code) :
    Alike start (execCells config runner scopes frame code)
      (execCells (config.resolving policy) otherRunner scopes frame code) := by
  induction code generalizing index start with
  | nil => exact .refl start _
  | cons cell rest inductionHypothesis =>
      have restSame :
          SameNames config (config.resolving policy) scopes frame rest :=
        fun other member => same other (List.mem_cons_of_mem cell member)
      simp only [Code.heightFrom] at height
      split at height
      · cases height
      · rename_i enough
        have split : cell.pops + (start - cell.pops) = start := by omega
        have executed :
            Alike cell.pops (execCell config runner scopes frame cell)
              (execCell (config.resolving policy) otherRunner scopes
                frame cell) := by
          cases referring : cell.reference? with
          | none =>
              cases cell with
              | literal | op => exact .refl _ _
              | «variable» | lookup | call | element => cases referring
          | some name =>
              exact alike_reference agree checked linked apart referring
                (same cell List.mem_cons_self name referring)
        have leaves :
            Confined start (start - cell.pops + cell.pushes)
              (execCell config runner scopes frame cell) :=
          confined_step confines checked frame enough
        have extended := executed.extend (start - cell.pops)
        rw [split] at extended
        exact .andThen (confined_tick config start) (.refl start _)
          (.andThen leaves extended (inductionHypothesis height restSame))

end Programs

/--
The policy for names makes no difference to programs at any level of nesting.
-/
theorem runProgram_agree
    (config : Config)
    (policy : NameResolution)
    (levels : Nat) :
    (runProgram config levels).Agree config (config.resolving policy)
      (runProgram (config.resolving policy) levels) := by
  induction levels with
  | zero =>
      intro scopes frame code _ _ _ _ _
      exact .refl 0 _
  | succ levels inductionHypothesis =>
      intro scopes frame code checked linked apart accepted same
      rw [Code.check_eq_ok] at accepted
      exact (alike_execCells inductionHypothesis checked linked apart
        (runProgram_confines config levels) frame accepted same).nested

end Eval

end Formulary
