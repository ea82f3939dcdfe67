import Formulary.Eval.Basic
import Formulary.Proofs.Entry.Bindings
import Formulary.Proofs.Entry.Grid
import Formulary.Proofs.Stateful

namespace Formulary

open Stateful

/-!
# Confined evaluation

An evaluation is confined when it works on the values on top of the stack only:
it takes a fixed number of them and leaves a fixed number of values in their
place, or it fails without touching what lies below.  Whether it succeeds, with
which values, or with which failure, does not depend on the cells below, but
only on how many there are.

The height of a program says how many values it takes and leaves, so every
program that passes its check is confined, and so is every entry whose programs
do.
-/

/-- The first limit exceeded when a cell is about to be executed. -/
def Config.exceeded? (config : Config) (steps depth : Nat) : Option Limit :=
  (match config.maxSteps with
    | some most => if most < steps then some (.steps most) else none
    | none => none)
    <|> (if config.maxStackSize < depth
      then some (.stackSize config.maxStackSize) else none)

/-- What the limits allow when a cell is executed. -/
theorem Config.exceeded?_eq_none
    {config : Config}
    {steps depth : Nat}
    (allowed : config.exceeded? steps depth = none) :
    (∀ most, config.maxSteps = some most → steps ≤ most) ∧
      depth ≤ config.maxStackSize := by
  unfold Config.exceeded? at allowed
  rw [Option.orElse_eq_orElse, Option.orElse_eq_or,
    Option.or_eq_none_iff] at allowed
  obtain ⟨inSteps, inStack⟩ := allowed
  constructor
  · intro most limited
    simpa [limited] using inSteps
  · simpa using inStack

namespace Eval

/-- The outcome of counting a cell. -/
theorem tick_apply
    (config : Config)
    (run : Run) :
    tick config run =
      match config.exceeded? (run.steps + 1) run.stack.depth with
      | some limit =>
          .error (Failure.ofFault (.nonTermination limit))
            { run with steps := run.steps + 1 }
      | none => .ok () { run with steps := run.steps + 1 } := by
  unfold tick Config.exceeded?
  cases limited : config.maxSteps with
  | none =>
      by_cases full : config.maxStackSize < run.stack.depth <;>
        simp [full, fail]
  | some most =>
      by_cases late : most < run.steps + 1
      · simp [late, fail, bind_of_error (throw_apply _ _)]
      · by_cases full : config.maxStackSize < run.stack.depth <;>
          simp [late, full, fail]

/-- Values as the cells that hold them on the stack. -/
def literals (values : List Value) : List Cell :=
  values.map Cell.literal

@[simp]
theorem literals_nil : literals [] = [] :=
  rfl

@[simp]
theorem literals_cons
    (value : Value)
    (values : List Value) :
    literals (value :: values) = .literal value :: literals values :=
  rfl

@[simp]
theorem length_literals (values : List Value) :
    (literals values).length = values.length := by
  simp [literals]

theorem literals_ints (indices : List Int64) :
    (indices.map fun index => Cell.literal (.int index)) =
      literals (indices.map Value.int) := by
  simp [literals]

theorem literals_append (first second : List Value) :
    literals (first ++ second) = literals first ++ literals second := by
  simp [literals]

theorem literals_reverse (values : List Value) :
    literals values.reverse = (literals values).reverse := by
  simp [literals]

@[simp]
theorem ofExcept_ok (a : α) : ofExcept (.ok a) = pure a :=
  rfl

/-- The state with some values on top of some cells. -/
def above (values : List Value) (below : List Cell) (steps calls : Nat) : Run :=
  ⟨⟨literals values ++ below⟩, steps, calls⟩

/-- Of the values on top, those below others count as lying below. -/
theorem above_append
    (top rest : List Value)
    (below : List Cell)
    (steps calls : Nat) :
    above (top ++ rest) below steps calls =
      above top (literals rest ++ below) steps calls := by
  simp [above, literals_append, List.append_assoc]

/-- Any number of values on top, and the others below them. -/
theorem above_take
    (count : Nat)
    (values : List Value)
    (below : List Cell)
    (steps calls : Nat) :
    above values below steps calls =
      above (values.take count) (literals (values.drop count) ++ below)
        steps calls := by
  rw [← above_append, List.take_append_drop]

/--
An evaluation that replaces values on top of the stack, whatever lies below.
-/
def Confined (takes leaves : Nat) (action : Eval Unit) : Prop :=
  ∀ (depth steps calls : Nat) (values : List Value),
    values.length = takes →
      (∃ results : List Value, results.length = leaves ∧ ∃ later : Nat,
        ∀ below : List Cell, below.length = depth →
          action (above values below steps calls) =
            .ok () (above results below later calls)) ∨
      (∃ (failure : Failure) (rubble : List Cell) (later : Nat),
        ∀ below : List Cell, below.length = depth →
          action (above values below steps calls) =
            .error failure ⟨⟨rubble ++ below⟩, later, calls⟩)

namespace Confined

/-- One confined evaluation after another. -/
theorem andThen
    {takes between leaves : Nat}
    {first : Eval Unit}
    {second : Eval Unit}
    (firstConfined : Confined takes between first)
    (secondConfined : Confined between leaves second) :
    Confined takes leaves (first >>= fun _ => second) := by
  intro depth steps calls values taken
  rcases firstConfined depth steps calls values taken with
      ⟨middle, middleLength, later, succeeds⟩ | ⟨failure, rubble, later, fails⟩
  · rcases secondConfined depth later calls middle middleLength with
        ⟨results, resultsLength, last, succeedsNext⟩
          | ⟨failure, rubble, last, failsNext⟩
    · refine .inl ⟨results, resultsLength, last, ?_⟩
      intro below belowDepth
      rw [bind_of_ok (succeeds below belowDepth)]
      exact succeedsNext below belowDepth
    · refine .inr ⟨failure, rubble, last, ?_⟩
      intro below belowDepth
      rw [bind_of_ok (succeeds below belowDepth)]
      exact failsNext below belowDepth
  · refine .inr ⟨failure, rubble, later, ?_⟩
    intro below belowDepth
    exact bind_of_error (fails below belowDepth)

/-- More values may lie below those that are taken. -/
theorem extend
    {takes leaves : Nat}
    {action : Eval Unit}
    (confined : Confined takes leaves action)
    (more : Nat) :
    Confined (takes + more) (leaves + more) action := by
  intro depth steps calls values taken
  -- The values not taken belong to the cells below.
  have untouchedLength : (values.drop takes).length = more := by
    rw [List.length_drop]
    omega
  have deeper {below : List Cell} (belowDepth : below.length = depth) :
      (literals (values.drop takes) ++ below).length = more + depth := by
    rw [List.length_append, length_literals, untouchedLength, belowDepth]
  rcases confined (more + depth) steps calls (values.take takes)
      (by rw [List.length_take]; omega) with
      ⟨results, resultsLength, later, succeeds⟩
        | ⟨failure, rubble, later, fails⟩
  · refine .inl ⟨results ++ values.drop takes, ?_, later, ?_⟩
    · rw [List.length_append, resultsLength, untouchedLength]
    · intro below belowDepth
      rw [above_take takes, above_append, succeeds _ (deeper belowDepth)]
  · refine .inr ⟨failure, rubble ++ literals (values.drop takes), later, ?_⟩
    intro below belowDepth
    rw [above_take takes, fails _ (deeper belowDepth), List.append_assoc]

/-- Recording where a failure arises changes no stack. -/
theorem inside
    {takes leaves : Nat}
    {action : Eval Unit}
    (confined : Confined takes leaves action)
    (entry : String) :
    Confined takes leaves (Eval.inside entry action) := by
  intro depth steps calls values taken
  rcases confined depth steps calls values taken with
      ⟨results, resultsLength, later, succeeds⟩
        | ⟨failure, rubble, later, fails⟩
  · refine .inl ⟨results, resultsLength, later, ?_⟩
    intro below belowDepth
    simp only [Eval.inside, succeeds below belowDepth]
  · refine .inr ⟨failure.inside entry, rubble, later, ?_⟩
    intro below belowDepth
    simp only [Eval.inside, fails below belowDepth]

/-- Counting a program while it runs leaves the count as it was. -/
theorem nested
    {takes leaves : Nat}
    {action : Eval Unit}
    (confined : Confined takes leaves action) :
    Confined takes leaves (Eval.nested action) := by
  intro depth steps calls values taken
  rcases confined depth steps (calls + 1) values taken with
      ⟨results, resultsLength, later, succeeds⟩
        | ⟨failure, rubble, later, fails⟩
  · refine .inl ⟨results, resultsLength, later, ?_⟩
    intro below belowDepth
    have entered := succeeds below belowDepth
    simp only [above] at entered ⊢
    simp only [Eval.nested, entered, Nat.add_sub_cancel]
  · refine .inr ⟨failure, rubble, later, ?_⟩
    intro below belowDepth
    have entered := fails below belowDepth
    simp only [above] at entered ⊢
    simp only [Eval.nested, entered, Nat.add_sub_cancel]

end Confined

/-- A failure that looks at nothing is confined. -/
theorem confined_fail
    (takes leaves : Nat)
    (fault : Fault) :
    Confined takes leaves (fail fault) := by
  intro depth steps calls values _
  refine .inr ⟨Failure.ofFault fault, literals values, steps, ?_⟩
  intro below _
  rfl

theorem confined_push (value : Value) :
    Confined 0 1 (push (.literal value)) := by
  intro depth steps calls values taken
  obtain rfl := List.eq_nil_of_length_eq_zero taken
  refine .inl ⟨[value], rfl, steps, ?_⟩
  intro below _
  rfl

/-- The limits look at the depth of the stack, never at its cells. -/
theorem confined_tick
    (config : Config)
    (count : Nat) :
    Confined count count (tick config) := by
  intro depth steps calls values taken
  have height {below : List Cell} (belowDepth : below.length = depth) :
      (⟨literals values ++ below⟩ : Stack).depth = count + depth := by
    simp [Stack.depth, taken, belowDepth]
  cases checked : config.exceeded? (steps + 1) (count + depth) with
  | none =>
      refine .inl ⟨values, taken, steps + 1, ?_⟩
      intro below belowDepth
      rw [tick_apply]
      simp only [above, height belowDepth, checked]
  | some limit =>
      refine .inr ⟨Failure.ofFault (.nonTermination limit), literals values,
        steps + 1, ?_⟩
      intro below belowDepth
      rw [tick_apply]
      simp only [above, height belowDepth, checked]

/-- A step that takes the value on top. -/
theorem Confined.ofPop
    {takes leaves : Nat}
    {rest : Cell → Eval Unit}
    (confined : ∀ value, Confined takes leaves (rest (.literal value))) :
    Confined (takes + 1) leaves (pop >>= rest) := by
  intro depth steps calls values taken
  obtain ⟨top, others, rfl⟩ := List.exists_cons_of_length_eq_add_one taken
  have popped (below : List Cell) :
      pop (above (top :: others) below steps calls) =
        .ok (.literal top) (above others below steps calls) :=
    rfl
  have othersTaken : others.length = takes := by
    simpa using taken
  rcases confined top depth steps calls others othersTaken with
      ⟨results, resultsLength, later, succeeds⟩
        | ⟨failure, rubble, later, fails⟩
  · refine .inl ⟨results, resultsLength, later, ?_⟩
    intro below belowDepth
    rw [bind_of_ok (popped below), succeeds below belowDepth]
  · refine .inr ⟨failure, rubble, later, ?_⟩
    intro below belowDepth
    rw [bind_of_ok (popped below), fails below belowDepth]

theorem popMany_of_short
    {count : Nat}
    {run : Run}
    (short : run.stack.depth < count) :
    popMany count run =
      .error (Failure.ofFault (.stackUnderflow count run.stack.depth)) run := by
  simp only [popMany, bind_get, Stack.popMany, if_pos short]
  rfl

theorem popMany_of_enough
    {count : Nat}
    {run : Run}
    (enough : ¬ run.stack.depth < count) :
    popMany count run =
      .ok (run.stack.cells.take count).reverse
        { run with stack := ⟨run.stack.cells.drop count⟩ } := by
  simp only [popMany, bind_get, Stack.popMany, if_neg enough]
  rfl

/-- The cells on top, in the order in which they were pushed. -/
theorem popMany_append
    {count : Nat}
    {cells : List Cell}
    (taken : cells.length = count)
    (below : List Cell)
    (steps calls : Nat) :
    popMany count ⟨⟨cells ++ below⟩, steps, calls⟩ =
      .ok cells.reverse ⟨⟨below⟩, steps, calls⟩ := by
  subst taken
  have enough : ¬ (cells ++ below).length < cells.length := by
    rw [List.length_append]
    omega
  have split :
      (⟨cells ++ below⟩ : Stack).popMany cells.length =
        .ok (cells.reverse, ⟨below⟩) := by
    rw [Stack.popMany, Stack.depth, if_neg enough, List.take_left,
      List.drop_left]
  simp only [popMany, bind_get, split, ofExcept_ok, bind_pure, bind_set,
    pure_apply]

/-- The values on top, in the order in which they were pushed. -/
theorem popMany_above
    {count : Nat}
    {values : List Value}
    (taken : values.length = count)
    (below : List Cell)
    (steps calls : Nat) :
    popMany count (above values below steps calls) =
      .ok (literals values.reverse) (above [] below steps calls) := by
  rw [literals_reverse]
  exact popMany_append ((length_literals values).trans taken) below steps calls

/-- A step that takes several values at once. -/
theorem Confined.ofPopMany
    {takes leaves : Nat}
    {rest : List Cell → Eval Unit}
    (confined :
      ∀ values : List Value,
        values.length = takes → Confined 0 leaves (rest (literals values))) :
    Confined takes leaves (popMany takes >>= rest) := by
  intro depth steps calls values taken
  rcases confined values.reverse (by simpa using taken) depth steps
    calls [] rfl with
      ⟨results, resultsLength, later, succeeds⟩
        | ⟨failure, rubble, later, fails⟩
  · refine .inl ⟨results, resultsLength, later, ?_⟩
    intro below belowDepth
    rw [bind_of_ok (popMany_above taken below steps calls),
      succeeds below belowDepth]
  · refine .inr ⟨failure, rubble, later, ?_⟩
    intro below belowDepth
    rw [bind_of_ok (popMany_above taken below steps calls),
      fails below belowDepth]

/-- A step that computes something without looking at the stack. -/
theorem Confined.ofExcept
    {takes leaves : Nat}
    {result : Except Fault α}
    {rest : α → Eval Unit}
    (confined : ∀ a, result = .ok a → Confined takes leaves (rest a)) :
    Confined takes leaves (ofExcept result >>= rest) := by
  cases result with
  | ok a => exact confined a rfl
  | error fault =>
      intro depth steps calls values _
      refine .inr ⟨Failure.ofFault fault, literals values, steps, ?_⟩
      intro below _
      rfl

theorem confined_operate (op : Op) :
    Confined op.arity 1 (operate op) := by
  by_cases single : op.arity = 1
  · simp only [operate, single, if_true]
    refine .ofPop fun a => .ofExcept fun value _ => ?_
    exact confined_push value
  · have double : op.arity = 2 := by
      cases op <;> simp_all [Op.arity]
    simp only [operate, double]
    refine .ofPop fun b => .ofPop fun a => .ofExcept fun value _ => ?_
    exact confined_push value

end Eval

namespace Entry

/-- The programs of an entry. -/
def programs (entry : Entry) : List Code :=
  match entry.definition with
  | .scalar code => [code]
  | .array grid => grid.elements.toList
  | .function _ body => [body]
  | .curve _ => []

/-- A scalar takes no operands. -/
theorem operandCount_of_isScalar
    {entry : Entry}
    (scalar : entry.isScalar = true) :
    entry.operandCount = 0 := by
  obtain ⟨name, definition⟩ := entry
  cases definition <;> simp_all [isScalar, kind, operandCount]

/-- An array takes its indices. -/
theorem operandCount_of_grid?
    {entry : Entry}
    {grid : Grid}
    (isArray : entry.grid? = some grid) :
    entry.operandCount = grid.rank := by
  obtain ⟨name, definition⟩ := entry
  cases definition <;> simp_all [grid?, operandCount]

/-- What can be called takes its arguments. -/
theorem operandCount_of_arity?
    {entry : Entry}
    {arity : Nat}
    (callable : entry.arity? = some arity) :
    entry.operandCount = arity := by
  obtain ⟨name, definition⟩ := entry
  cases definition <;> simp_all [arity?, operandCount]

/-- Every program of the entry leaves exactly one value. -/
def Checked (entry : Entry) : Prop :=
  ∀ code ∈ entry.programs, Code.check code = .ok ()

end Entry

/-- A program that passes its check goes from an empty stack to one value. -/
theorem Code.check_eq_ok {code : Code} :
    Code.check code = .ok () ↔ Code.height 0 code = .ok 1 := by
  unfold Code.check
  split <;> simp_all

/-- A program of one cell passes its check when the cell takes nothing. -/
theorem Code.check_singleton
    (cell : Cell) :
    Code.check [cell] = .ok () ↔ cell.pops = 0 := by
  rw [Code.check_eq_ok]
  cases taken : cell.pops <;>
    simp [Code.height, Code.heightFrom, Cell.pushes, taken]

/-- A program that pushes a literal passes its check. -/
@[simp]
theorem Code.check_push
    (value : Value) :
    Code.check (Code.push value) = .ok () :=
  rfl

namespace Scopes

/-- Every entry in any scope is checked. -/
structure Checked (scopes : Scopes) : Prop where
  globals : ∀ entry ∈ scopes.globals.entries, entry.Checked
  frames : ∀ frame ∈ scopes.frames, ∀ entry ∈ frame.entries, entry.Checked

/-- Calling a function on cells that take nothing keeps every entry checked. -/
theorem Checked.pushCells
    {scopes : Scopes}
    (checked : scopes.Checked)
    (params : List String)
    {cells : List Cell}
    (takeNothing : ∀ cell ∈ cells, cell.pops = 0) :
    (scopes.push (Bindings.ofArguments params cells)).Checked := by
  refine ⟨checked.globals, forall_frames_push checked.frames params ?_⟩
  intro cell isArgument param code isProgram
  obtain rfl := List.mem_singleton.mp isProgram
  exact (Code.check_singleton cell).mpr (takeNothing cell isArgument)

/-- Calling a function on values keeps every entry checked. -/
theorem Checked.push
    {scopes : Scopes}
    (checked : scopes.Checked)
    (params : List String)
    (values : List Value) :
    (scopes.push
      (Bindings.ofArguments params (Eval.literals values))).Checked := by
  refine checked.pushCells params fun cell isArgument => ?_
  obtain ⟨value, -, rfl⟩ := List.mem_map.mp isArgument
  rfl

/-- Whatever a name resolves to is checked. -/
theorem Checked.of_mem
    {scopes : Scopes}
    (checked : scopes.Checked)
    {entry : Entry}
    (member :
      (∃ frame ∈ scopes.frames, entry ∈ frame.entries) ∨
        entry ∈ scopes.globals.entries) :
    entry.Checked := by
  rcases member with ⟨frame, isFrame, held⟩ | isGlobal
  · exact checked.frames frame isFrame entry held
  · exact checked.globals entry isGlobal

end Scopes

namespace Eval

/-- The entry a name stands for under the policy of a configuration. -/
def lookup?
    (config : Config)
    (scopes : Scopes)
    (frame : Option Nat)
    (name : String) :
    Option Entry :=
  match config.nameResolution with
  | .dynamic => scopes.find? name
  | .lexical => scopes.resolve? frame name

theorem resolve_eq
    (config : Config)
    (scopes : Scopes)
    (frame : Option Nat)
    (name : String) :
    resolve config scopes frame name =
      match lookup? config scopes frame name with
      | some entry => pure entry
      | none => fail (.unboundName name) :=
  rfl

theorem binds_of_lookup?
    {config : Config}
    {scopes : Scopes}
    {frame : Option Nat}
    {name : String}
    {entry : Entry}
    (found : lookup? config scopes frame name = some entry) :
    scopes.Binds name entry := by
  unfold lookup? at found
  cases policy : config.nameResolution with
  | dynamic =>
      rw [policy] at found
      exact Scopes.binds_of_find? found
  | lexical =>
      rw [policy] at found
      exact Scopes.binds_of_resolve? found

theorem mem_of_lookup?
    {config : Config}
    {scopes : Scopes}
    {frame : Option Nat}
    {name : String}
    {entry : Entry}
    (found : lookup? config scopes frame name = some entry) :
    (∃ frame ∈ scopes.frames, entry ∈ frame.entries) ∨
      entry ∈ scopes.globals.entries :=
  (binds_of_lookup? found).mem

/--
A way of running programs that confines those that leave exactly one value.
-/
def Runner.Confines (runner : Runner) : Prop :=
  ∀ (scopes : Scopes) (frame : Option Nat) (code : Code),
    scopes.Checked → Code.check code = .ok () →
      Confined 0 1 (runner scopes frame code)

/-- The program at an index is checked when the elements are. -/
theorem check_of_element
    {grid : Grid}
    (elementsChecked : ∀ code ∈ grid.elements.toList, Code.check code = .ok ())
    {indices : List Int64}
    {code : Code}
    (found : grid.element indices = .ok code) :
    Code.check code = .ok () := by
  rcases Grid.mem_of_element found with isElement | rfl
  · exact elementsChecked code isElement
  · exact Code.check_push (.int 0)

section Entries

variable
  {config : Config}
  {runner : Runner}
  (confines : runner.Confines)
  {scopes : Scopes}
  (checked : scopes.Checked)

include confines checked

theorem confined_apply
    {entry : Entry}
    (entryChecked : entry.Checked) :
    Confined entry.operandCount 1 (apply config runner scopes entry) := by
  refine Confined.inside ?_ entry.name
  obtain ⟨name, definition⟩ := entry
  cases definition with
  | scalar code =>
      exact confines scopes none code checked
        (entryChecked code (by simp [Entry.programs]))
  | array grid =>
      refine .ofPopMany fun values _ => .ofExcept fun indices _ =>
        .ofExcept fun code found => ?_
      have element := except_mapError_eq_ok.mp found
      exact confines scopes none code checked
        (check_of_element entryChecked element)
  | function params body =>
      refine .ofPopMany fun values _ => ?_
      exact confines _ _ body (checked.push params values)
        (entryChecked body (by simp [Entry.programs]))
  | curve curve =>
      refine .ofPop fun value => .ofExcept fun x _ => .ofExcept fun y _ => ?_
      exact confined_push (.double y)

omit confines in
/--
What a name resolves to is checked, so a step that uses it may rely on that.
-/
theorem confined_resolve
    {frame : Option Nat}
    {name : String}
    {takes leaves : Nat}
    {rest : Entry → Eval Unit}
    (confined :
      ∀ entry : Entry, entry.Checked → Confined takes leaves (rest entry)) :
    Confined takes leaves (resolve config scopes frame name >>= rest) := by
  rw [resolve_eq]
  cases found : lookup? config scopes frame name with
  | some entry =>
      exact confined entry (checked.of_mem (mem_of_lookup? found))
  | none =>
      intro depth steps calls values _
      refine .inr
        ⟨Failure.ofFault (.unboundName name), literals values, steps, ?_⟩
      intro below _
      rfl

omit confines checked in
/-- A reference takes the operands of the entry it may use. -/
theorem operandCount_of_useFault?
    {cell : Cell}
    {entry : Entry}
    (reference : cell.reference?.isSome)
    (allowed : useFault? cell entry = none) :
    entry.operandCount = cell.pops := by
  obtain ⟨name, definition⟩ := entry
  cases cell <;> cases definition <;>
    simp_all [useFault?, Entry.kind, Entry.arity?, Entry.grid?,
      Entry.operandCount, Cell.pops, Cell.reference?]

omit confines checked in
/--
A reference is resolved, and the entry is applied when it may be used like this.
-/
theorem execCell_reference
    (frame : Option Nat)
    {cell : Cell}
    {name : String}
    (reference : cell.reference? = some name) :
    execCell config runner scopes frame cell =
      (resolve config scopes frame name >>= fun entry =>
        match useFault? cell entry with
        | some fault => fail fault
        | none => apply config runner scopes entry) := by
  cases cell <;> cases reference <;> rfl

theorem confined_reference
    {frame : Option Nat}
    {cell : Cell}
    {name : String}
    (reference : cell.reference?.isSome) :
    Confined cell.pops 1
      (resolve config scopes frame name >>= fun entry =>
        match useFault? cell entry with
        | some fault => fail fault
        | none => apply config runner scopes entry) := by
  refine confined_resolve checked fun entry entryChecked => ?_
  cases use : useFault? cell entry with
  | some fault =>
      exact confined_fail cell.pops 1 fault
  | none =>
      rw [← operandCount_of_useFault? reference use]
      exact confined_apply confines checked entryChecked

theorem confined_execCell
    (frame : Option Nat)
    (cell : Cell) :
    Confined cell.pops 1 (execCell config runner scopes frame cell) := by
  cases cell with
  | literal value => exact confined_push value
  | op operation => exact confined_operate operation
  | «variable» name => exact confined_reference confines checked rfl
  | lookup name => exact confined_reference confines checked rfl
  | call name arity => exact confined_reference confines checked rfl
  | element name rank => exact confined_reference confines checked rfl

/-- A cell changes the height of the stack by what it takes and leaves. -/
theorem confined_step
    (frame : Option Nat)
    {cell : Cell}
    {start : Nat}
    (enough : ¬ start < cell.pops) :
    Confined start (start - cell.pops + cell.pushes)
      (execCell config runner scopes frame cell) := by
  have more :
      Confined (cell.pops + (start - cell.pops)) (1 + (start - cell.pops))
        (execCell config runner scopes frame cell) :=
    (confined_execCell confines checked frame cell).extend (start - cell.pops)
  rwa [show cell.pops + (start - cell.pops) = start by omega,
    show 1 + (start - cell.pops) = start - cell.pops + cell.pushes by
      simp only [Cell.pushes]; omega] at more

/-- Cells take and leave as many values as the height says. -/
theorem confined_execCells
    (frame : Option Nat)
    {code : Code}
    {index start finish : Nat}
    (height : Code.heightFrom index start code = .ok finish) :
    Confined start finish (execCells config runner scopes frame code) := by
  induction code generalizing index start with
  | nil =>
      obtain rfl : start = finish := by
        simpa [Code.heightFrom] using height
      intro depth steps calls values taken
      exact .inl ⟨values, taken, steps, fun below _ => rfl⟩
  | cons cell rest inductionHypothesis =>
      simp only [Code.heightFrom] at height
      split at height
      · cases height
      · rename_i enough
        exact (confined_tick config start).andThen
          ((confined_step confines checked frame enough).andThen
            (inductionHypothesis height))

end Entries

/-- Programs are confined at every level of nesting. -/
theorem runProgram_confines
    (config : Config)
    (levels : Nat) :
    (runProgram config levels).Confines := by
  induction levels with
  | zero =>
      intro scopes frame code _ _
      exact confined_fail 0 1 _
  | succ levels inductionHypothesis =>
      intro scopes frame code checked accepted
      rw [Code.check_eq_ok] at accepted
      exact
        (confined_execCells inductionHypothesis checked frame accepted).nested

end Eval

end Formulary
