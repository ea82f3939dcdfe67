import Formulary.Proofs.Entry.Addressing
import Formulary.Proofs.Load.Signatures

namespace Formulary

open Stateful

/-!
# The last write counts

Declarations and assignments write to one table of entries, in whatever order
the statements of a source come.  A declaration puts a whole entry in its place,
and an assignment one element of an array.  So what a name is bound to in the
end depends on its last declaration and on the assignments behind it, and on no
other statement.
-/

namespace Grid

/-- An array in which some index tuples have been given other programs. -/
structure Rewritten
    (assigned : List Int64 → Option Code)
    (grid changed : Grid) : Prop where
  dims : changed.dims = grid.dims
  size : changed.elements.size = grid.elements.size
  element : ∀ tuple,
    changed.element tuple = (assigned tuple).elim (grid.element tuple) .ok

namespace Rewritten

theorem refl (grid : Grid) : Rewritten (fun _ => none) grid grid :=
  ⟨rfl, rfl, fun _ => rfl⟩

theorem trans
    {earlier later : List Int64 → Option Code}
    {first second third : Grid}
    (before : Rewritten earlier first second)
    (after : Rewritten later second third) :
    Rewritten (fun tuple => (later tuple).or (earlier tuple)) first third := by
  refine ⟨after.dims.trans before.dims, after.size.trans before.size,
    fun tuple => ?_⟩
  rw [after.element, before.element]
  cases later tuple <;> rfl

theorem ofSet
    {grid changed : Grid}
    {tuple : List Int64}
    {code : Code}
    (filled : grid.elements.size = grid.dims.prod)
    (set : grid.set tuple code = .ok changed) :
    Rewritten (fun other => if tuple = other then some code else none)
      grid changed := by
  have reads := element_of_set filled set
  obtain ⟨place, -, rfl⟩ := of_set set
  refine ⟨rfl, Array.size_setIfInBounds, fun other => ?_⟩
  rw [reads]
  by_cases same : tuple = other
  · simp [same]
  · simp [same, Ne.symm same]

/-- Index tuples keep their places. -/
theorem offset
    {assigned : List Int64 → Option Code}
    {grid changed : Grid}
    (rewritten : Rewritten assigned grid changed)
    (tuple : List Int64) :
    changed.offset tuple = grid.offset tuple := by
  unfold Grid.offset Grid.rank
  rw [rewritten.dims]

end Rewritten

/--
The program at an index tuple of a declared array is the initializer at its
place, or zero.
-/
theorem element_ofElements
    {dims : List Nat}
    {programs : List Code}
    {tuple : List Int64}
    {place : Nat}
    (found : (ofElements dims programs).offset tuple = .ok place) :
    (ofElements dims programs).element tuple =
      .ok (programs[place]?.getD blank) := by
  have inside : place < capacity dims := by
    rw [capacity_eq_prod]
    exact lt_prod_of_offset found
  simp only [element, found, Except.map]
  congr 1
  simp only [ofElements, Array.getD_eq_getD_getElem?, List.getElem?_toArray]
  by_cases written : place < programs.length
  · rw [List.getElem?_append_left (by simp; omega),
      List.getElem?_take_of_lt inside]
  · rw [List.getElem?_append_right (by simp; omega), List.getElem?_replicate,
      List.getElem?_eq_none (by omega : programs.length ≤ place)]
    split <;> rfl

end Grid

namespace Compile

/--
The names that the statements of a source declare, one for each declaration.
-/
def declaredNames (program : List Statement) : List String :=
  program.filterMap fun statement =>
    (declaration? statement.action).map Prod.fst

end Compile

namespace Load

/-! Events one after the other, and what the last of them leaves. -/

namespace Event

/-- The name that an event declares. -/
def declares? : Event → Option String
  | .declared entry => some entry.name
  | .assigned _ _ _ => none
  | .printed _ => none

/-- The program that an event gives to an element of an array. -/
def assigns? (name : String) (tuple : List Int64) : Event → Option Code
  | .declared _ => none
  | .assigned other indices code =>
      if other = name ∧ indices = tuple then some code else none
  | .printed _ => none

end Event

/-- The names that events declare, one for each declaration. -/
def namesDeclared (events : List Event) : List String :=
  events.filterMap Event.declares?

theorem namesDeclared_cons
    (event : Event)
    (events : List Event) :
    namesDeclared (event :: events) =
      event.declares?.toList ++ namesDeclared events := by
  cases step : event.declares? <;> simp [namesDeclared, step]

theorem not_mem_namesDeclared_cons
    {event : Event}
    {events : List Event}
    {name : String} :
    name ∉ namesDeclared (event :: events) ↔
      event.declares? ≠ some name ∧ name ∉ namesDeclared events := by
  simp [namesDeclared_cons, Option.mem_toList]

/-- A name that is declared has a last declaration. -/
theorem exists_last_of_mem
    {events : List Event}
    {name : String}
    (member : name ∈ namesDeclared events) :
    ∃ earlier entry later,
      events = earlier ++ .declared entry :: later ∧
        entry.name = name ∧
        name ∉ namesDeclared later := by
  induction events with
  | nil => cases member
  | cons event rest inductionHypothesis =>
      by_cases again : name ∈ namesDeclared rest
      · obtain ⟨earlier, entry, later, rfl, named, last⟩ :=
          inductionHypothesis again
        exact ⟨event :: earlier, entry, later, rfl, named, last⟩
      · rw [namesDeclared_cons, List.mem_append, Option.mem_toList] at member
        have here := member.resolve_right again
        cases event with
        | declared entry =>
            exact ⟨[], entry, rest, rfl, Option.some.inj here, again⟩
        | assigned => cases here
        | printed => cases here

/--
The program that the last of the events that assign to an element gives it.
-/
def lastAssigned?
    (name : String)
    (tuple : List Int64)
    (events : List Event) :
    Option Code :=
  events.reverse.findSome? (Event.assigns? name tuple)

theorem lastAssigned?_cons
    (name : String)
    (tuple : List Int64)
    (event : Event)
    (events : List Event) :
    lastAssigned? name tuple (event :: events) =
      (lastAssigned? name tuple events).or (event.assigns? name tuple) := by
  simp [lastAssigned?, List.findSome?_append]

/-- The global scope before and after several events. -/
inductive Written : List Event → Bindings → Bindings → Prop where
  | nil
      {globals : Bindings} :
      Written [] globals globals
  | cons
      {event : Event}
      {rest : List Event}
      {before between after : Bindings}
      (first : event.Writes before between)
      (others : Written rest between after) :
      Written (event :: rest) before after

/-- Events that come after others start from what those have left. -/
theorem Written.split
    {earlier later : List Event}
    {before after : Bindings}
    (written : Written (earlier ++ later) before after) :
    ∃ between,
      Written earlier before between ∧ Written later between after := by
  induction earlier generalizing before with
  | nil => exact ⟨before, .nil, written⟩
  | cons event rest inductionHypothesis =>
      cases written with
      | cons first others =>
          obtain ⟨between, restWritten, laterWritten⟩ :=
            inductionHypothesis others
          exact ⟨between, .cons first restWritten, laterWritten⟩

section Steps

variable
  {event : Event}
  {name : String}
  {before after : Bindings}

/--
A name that is declared comes last, if it is new, and an assignment has no new
name.
-/
theorem Event.Writes.names
    (writes : event.Writes before after)
    {declared : List String}
    (known : before.names = declared.eraseDups) :
    after.names = (declared ++ event.declares?.toList).eraseDups := by
  cases writes with
  | declared entry =>
      rw [Bindings.names_insert_of_eraseDups known, declares?,
        Option.toList_some]
  | @assigned globals name grid changed tuple code found set =>
      have member : name ∈ before.names := by
        obtain ⟨isEntry, named⟩ := Bindings.mem_of_get? found
        exact List.mem_map.mpr ⟨_, isEntry, named⟩
      rw [Bindings.names_insert, if_pos member, known, declares?,
        Option.toList_none, List.append_nil]
  | printed => rw [known, declares?, Option.toList_none, List.append_nil]

/-- An entry without elements stays until its name is declared again. -/
theorem Event.Writes.keep
    (writes : event.Writes before after)
    (undeclared : event.declares? ≠ some name)
    {entry : Entry}
    (bound : before.get? name = some entry)
    (whole : entry.grid? = none) :
    after.get? name = some entry := by
  cases writes with
  | declared other =>
      have different : other.name ≠ name :=
        fun same => undeclared (congrArg some same)
      rw [Bindings.get?_insert_of_ne before different, bound]
  | @assigned globals other grid changed tuple code found set =>
      have different : other ≠ name := by
        rintro rfl
        cases bound.symm.trans found
        cases whole
      rw [Bindings.get?_insert_of_ne before different, bound]
  | printed => exact bound

/--
Until its name is declared again, an array changes where it is assigned to.
-/
theorem Event.Writes.rewrite
    (writes : event.Writes before after)
    (undeclared : event.declares? ≠ some name)
    {grid : Grid}
    (bound : before.get? name = some ⟨name, .array grid⟩)
    (filled : grid.elements.size = grid.dims.prod) :
    ∃ changed,
      after.get? name = some ⟨name, .array changed⟩ ∧
        grid.Rewritten (fun tuple => event.assigns? name tuple) changed := by
  cases writes with
  | declared other =>
      have different : other.name ≠ name :=
        fun same => undeclared (congrArg some same)
      exact ⟨grid, by rw [Bindings.get?_insert_of_ne before different, bound],
        .refl grid⟩
  | @assigned globals other old changed tuple code found set =>
      by_cases same : other = name
      · subst same
        cases bound.symm.trans found
        have reads := Grid.Rewritten.ofSet filled set
        exact ⟨changed, Bindings.get?_insert_self before _,
          by simpa [assigns?] using reads⟩
      · refine ⟨grid, by rw [Bindings.get?_insert_of_ne before same, bound], ?_⟩
        simpa [assigns?, same] using Grid.Rewritten.refl grid
  | printed => exact ⟨grid, bound, .refl grid⟩

end Steps

section Runs

variable
  {events : List Event}
  {name : String}
  {before after : Bindings}

theorem Written.names
    (written : Written events before after)
    {declared : List String}
    (known : before.names = declared.eraseDups) :
    after.names = (declared ++ namesDeclared events).eraseDups := by
  induction written generalizing declared with
  | nil => simpa [namesDeclared] using known
  | @cons event rest before between after first others inductionHypothesis =>
      rw [inductionHypothesis (first.names known), namesDeclared_cons,
        List.append_assoc]

theorem Written.keep
    (written : Written events before after)
    (undeclared : name ∉ namesDeclared events)
    {entry : Entry}
    (bound : before.get? name = some entry)
    (whole : entry.grid? = none) :
    after.get? name = some entry := by
  induction written with
  | nil => exact bound
  | @cons event rest before between after first others inductionHypothesis =>
      obtain ⟨here, there⟩ := not_mem_namesDeclared_cons.mp undeclared
      exact inductionHypothesis there (first.keep here bound whole)

theorem Written.rewrite
    (written : Written events before after)
    (undeclared : name ∉ namesDeclared events)
    {grid : Grid}
    (bound : before.get? name = some ⟨name, .array grid⟩)
    (filled : grid.elements.size = grid.dims.prod) :
    ∃ changed,
      after.get? name = some ⟨name, .array changed⟩ ∧
        grid.Rewritten
          (fun tuple => lastAssigned? name tuple events) changed := by
  induction written generalizing grid with
  | nil => exact ⟨grid, bound, .refl grid⟩
  | @cons event rest before between after first others inductionHypothesis =>
      obtain ⟨here, there⟩ := not_mem_namesDeclared_cons.mp undeclared
      obtain ⟨between, boundBetween, once⟩ := first.rewrite here bound filled
      have stillFilled : between.elements.size = between.dims.prod := by
        rw [once.size, once.dims, filled]
      obtain ⟨changed, boundAfter, more⟩ :=
        inductionHypothesis there boundBetween stillFilled
      refine ⟨changed, boundAfter, ?_⟩
      simpa only [lastAssigned?_cons] using once.trans more

end Runs

end Load

end Formulary
