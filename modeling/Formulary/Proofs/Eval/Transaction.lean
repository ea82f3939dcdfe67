import Formulary.Proofs.Eval.Reached

namespace Formulary

open Stateful

/-!
# Evaluations as transactions

Whatever lies on the stack and whatever is in scope, an evaluation replaces its
operands by one value, or drops them and fails, and leaves the cells below them
as they were, unless it enters a program that does not pass its check.  The
check of a program alone is enough for this, because a reference is refused when
its entry takes another number of operands.
-/

namespace Eval

/--
How an evaluation ends above some cells: with a number of values on them, or in
a failure that leaves them as they were.
-/
inductive Settles (below : List Cell) (calls count : Nat) :
    EStateM.Result Failure Run Unit → Prop where
  | values
      (results : List Value)
      (later : Nat)
      (counted : results.length = count) :
      Settles below calls count (.ok () (above results below later calls))
  | failure
      (failure : Failure)
      (rubble : List Cell)
      (later : Nat) :
      Settles below calls count
        (.error failure ⟨⟨rubble ++ below⟩, later, calls⟩)

theorem Confined.settles
    {takes leaves : Nat}
    {action : Eval Unit}
    (confined : Confined takes leaves action)
    {values : List Value}
    (taken : values.length = takes)
    (below : List Cell)
    (steps calls : Nat) :
    Settles below calls leaves (action (above values below steps calls)) := by
  rcases confined below.length steps calls values taken with
      ⟨results, counted, later, succeeds⟩ | ⟨failure, rubble, later, fails⟩
  · rw [succeeds below rfl]
    exact .values results later counted
  · rw [fails below rfl]
    exact .failure failure rubble later

/-- Recording where a failure arises depends on the outcome only. -/
theorem inside_congr
    {action other : Eval Unit}
    {run start : Run}
    (same : action run = other start)
    (entry : String) :
    inside entry action run = inside entry other start := by
  unfold inside
  rw [same]

namespace Settles

variable
  {below : List Cell}
  {calls count : Nat}

theorem inside
    {action : Eval Unit}
    {run : Run}
    (settles : Settles below calls count (action run))
    (entry : String) :
    Settles below calls count (Eval.inside entry action run) := by
  unfold Eval.inside
  cases outcome : action run with
  | ok _ next =>
      rw [outcome] at settles
      exact settles
  | error failure next =>
      rw [outcome] at settles
      cases settles with
      | failure _ rubble later =>
          exact .failure (failure.inside entry) rubble later

theorem nested
    {action : Eval Unit}
    {stack : Stack}
    {steps : Nat}
    (settles :
      Settles below (calls + 1) count (action ⟨stack, steps, calls + 1⟩)) :
    Settles below calls count (Eval.nested action ⟨stack, steps, calls⟩) := by
  unfold Eval.nested
  cases outcome : action ⟨stack, steps, calls + 1⟩ with
  | ok _ next =>
      rw [outcome] at settles
      cases settles with
      | values results later counted => exact .values results later counted
  | error failure next =>
      rw [outcome] at settles
      cases settles with
      | failure _ rubble later => exact .failure failure rubble later

/-- Values that were not taken count as results. -/
theorem extend
    {more : List Value}
    {outcome : EStateM.Result Failure Run Unit}
    (settles : Settles (literals more ++ below) calls count outcome) :
    Settles below calls (count + more.length) outcome := by
  cases settles with
  | values results later counted =>
      rw [← above_append]
      exact .values (results ++ more) later
        (by rw [List.length_append, counted])
  | failure failure rubble later =>
      rw [← List.append_assoc]
      exact .failure failure (rubble ++ literals more) later

end Settles

/--
One evaluation after another, each of which settles unless something else holds.
-/
theorem settles_bind
    {first second : Eval Unit}
    {run : Run}
    {below : List Cell}
    {calls between finish : Nat}
    {otherwise : Prop}
    (settles : Settles below calls between (first run) ∨ otherwise)
    (later :
      ∀ (results : List Value) (steps : Nat), results.length = between →
        first run = .ok () (above results below steps calls) →
          Settles below calls finish
            (second (above results below steps calls)) ∨ otherwise) :
    Settles below calls finish ((first >>= fun _ => second) run) ∨
      otherwise := by
  rcases settles with settles | other
  · cases outcome : first run with
    | error failure next =>
        rw [outcome] at settles
        rw [bind_of_error outcome]
        cases settles with
        | failure _ rubble last => exact .inl (.failure failure rubble last)
    | ok _ next =>
        rw [outcome] at settles
        rw [bind_of_ok outcome]
        cases settles with
        | values results last counted =>
            exact later results last counted outcome
  · exact .inr other

/--
The program that a definition runs on some cells, and the scopes and the frame
it runs in.
-/
inductive Picks (scopes : Scopes) :
    Definition → List Cell → Scopes → Option Nat → Code → Prop where
  | scalar (code : Code) :
      Picks scopes (.scalar code) [] scopes none code
  | array
      {grid : Grid}
      {cells : List Cell}
      {indices : List Int64}
      {code : Code}
      (read : cells.mapM Cell.index = .ok indices)
      (found : grid.element indices = .ok code) :
      Picks scopes (.array grid) cells scopes none code
  | function
      (params : List String)
      (body : Code)
      (cells : List Cell) :
      Picks scopes (.function params body) cells
        (scopes.push (Bindings.ofArguments params cells))
        (some scopes.depth) body

/-- The program that is picked is entered once the operands have been taken. -/
theorem Picks.enters
    {scopes inner : Scopes}
    {entry : Entry}
    {operands : List Cell}
    {frame : Option Nat}
    {code : Code}
    (picks : Picks scopes entry.definition operands.reverse inner frame code)
    (counted : operands.length = entry.operandCount)
    (levels : Nat)
    (below : List Cell)
    (steps calls : Nat) :
    Enters levels scopes entry.definition ⟨⟨operands ++ below⟩, steps, calls⟩
      (.start levels inner frame code (above [] below steps calls)) := by
  obtain ⟨name, definition⟩ := entry
  have popped := popMany_append counted below steps calls
  dsimp only at picks ⊢
  generalize operands.reverse = cells at picks popped
  cases picks with
  | scalar =>
      obtain rfl := List.eq_nil_of_length_eq_zero counted
      exact .scalar code _
  | array read found => exact .array popped read found
  | function => exact .function popped

/--
An entry settles on its own, or it runs the program it picks, with nothing of
its operands left above the cells below.
-/
theorem apply_cases
    (config : Config)
    (runner : Runner)
    (scopes : Scopes)
    (entry : Entry)
    {operands : List Cell}
    (counted : operands.length = entry.operandCount)
    (below : List Cell)
    (steps calls : Nat) :
    Settles below calls 1
        (apply config runner scopes entry ⟨⟨operands ++ below⟩, steps, calls⟩) ∨
      ∃ inner frame code,
        Picks scopes entry.definition operands.reverse inner frame code ∧
          apply config runner scopes entry ⟨⟨operands ++ below⟩, steps, calls⟩ =
            inside entry.name (runner inner frame code)
              (above [] below steps calls) := by
  obtain ⟨name, definition⟩ := entry
  cases definition with
  | scalar code =>
      obtain rfl := List.eq_nil_of_length_eq_zero counted
      exact .inr ⟨scopes, none, code, .scalar code, rfl⟩
  | array grid =>
      have ranked : operands.length = grid.rank := counted
      have popped := popMany_append ranked below steps calls
      cases read : operands.reverse.mapM Cell.index with
      | error fault =>
          refine .inl (.inside ?_ name)
          rw [applyDefinition, bind_of_ok popped, read]
          exact .failure _ [] steps
      | ok indices =>
          cases found : grid.element indices with
          | error fault =>
              refine .inl (.inside ?_ name)
              rw [applyDefinition, bind_of_ok popped, read, ofExcept_ok,
                pure_bind, found]
              exact .failure _ [] steps
          | ok code =>
              refine .inr ⟨scopes, none, code, .array read found, ?_⟩
              refine inside_congr ?_ name
              rw [applyDefinition, bind_of_ok popped, read, ofExcept_ok,
                pure_bind, found]
              rfl
  | function params body =>
      have given : operands.length = params.length := counted
      have popped := popMany_append given below steps calls
      refine .inr ⟨_, _, body, .function params body operands.reverse, ?_⟩
      refine inside_congr ?_ name
      rw [applyDefinition, bind_of_ok popped]
      rfl
  | curve curve =>
      obtain ⟨cell, rfl⟩ := List.length_eq_one_iff.mp counted
      have popped :
          pop ⟨⟨[cell] ++ below⟩, steps, calls⟩ =
            .ok cell ⟨⟨below⟩, steps, calls⟩ :=
        rfl
      refine .inl (.inside ?_ name)
      rw [applyDefinition, bind_of_ok popped]
      cases number : cell.number with
      | error fault => exact .failure _ [] steps
      | ok x =>
          rw [ofExcept_ok, pure_bind]
          cases value : curve.valueAt config.extrapolation x with
          | error fault => exact .failure _ [] steps
          | ok y => exact .values [.double y] steps rfl

/-! Programs that do not pass their check. -/

/-- The start of a program that does not leave exactly one value. -/
inductive Point.Unchecked : Point → Prop where
  | start
      {levels : Nat}
      {scopes : Scopes}
      {frame : Option Nat}
      {code : Code}
      {run : Run}
      (refused : Code.check code ≠ .ok ()) :
      Unchecked (.start levels scopes frame code run)

/-- An evaluation enters a program that does not leave exactly one value. -/
def EntersUnchecked (config : Config) (point : Point) : Prop :=
  ∃ later, Reaches config point later ∧ later.Unchecked

/--
With so many levels left, programs settle unless they enter one that is not
checked.
-/
def Governed (config : Config) (levels : Nat) : Prop :=
  ∀ (scopes : Scopes) (frame : Option Nat) (code : Code) (below : List Cell)
    (steps calls : Nat),
    Settles below calls 1
        (runProgram config levels scopes frame code
          (above [] below steps calls)) ∨
      ∃ fewer, levels = fewer + 1 ∧
        EntersUnchecked config
          (.start fewer scopes frame code (above [] below steps calls))

section Levels

variable
  {config : Config}
  {levels : Nat}
  (governed : Governed config levels)
  (scopes : Scopes)

include governed

theorem settles_apply
    (entry : Entry)
    {operands : List Cell}
    (counted : operands.length = entry.operandCount)
    (below : List Cell)
    (steps calls : Nat) :
    Settles below calls 1
        (apply config (runProgram config levels) scopes entry
          ⟨⟨operands ++ below⟩, steps, calls⟩) ∨
      ∃ fewer inner, levels = fewer + 1 ∧
        Enters fewer scopes entry.definition
          ⟨⟨operands ++ below⟩, steps, calls⟩ inner ∧
          EntersUnchecked config inner := by
  rcases apply_cases config (runProgram config levels) scopes entry counted
    below steps calls with
      settles | ⟨inner, frame, code, picks, same⟩
  · exact .inl settles
  · rcases governed inner frame code below steps calls with
        settles | ⟨fewer, left, unchecked⟩
    · rw [same]
      exact .inl (settles.inside entry.name)
    · exact .inr ⟨fewer, _, left, picks.enters counted fewer below steps calls,
        unchecked⟩

/--
A cell that has been counted leaves one value, or enters a program that is not
checked.
-/
theorem settles_execCell
    (frame : Option Nat)
    {cell : Cell}
    {values : List Value}
    (taken : values.length = cell.pops)
    (rest : Code)
    {run : Run}
    {below : List Cell}
    {steps calls : Nat}
    (counted : tick config run = .ok () (above values below steps calls)) :
    Settles below calls 1
        (execCell config (runProgram config levels) scopes frame cell
          (above values below steps calls)) ∨
      EntersUnchecked config ⟨levels, scopes, frame, cell :: rest, run⟩ := by
  cases referring : cell.reference? with
  | none =>
      cases cell with
      | literal value =>
          exact .inl ((confined_push value).settles taken below steps calls)
      | op operation =>
          exact .inl
            ((confined_operate operation).settles taken below steps calls)
      | «variable» | lookup | call | element => cases referring
  | some name =>
      rw [execCell_reference frame referring, resolve_eq]
      cases found : lookup? config scopes frame name with
      | none => exact .inl (.failure _ (literals values) steps)
      | some entry =>
          rw [pure_bind]
          cases use : useFault? cell entry with
          | some fault => exact .inl (.failure _ (literals values) steps)
          | none =>
              have isReference : cell.reference?.isSome := by
                rw [referring]
                rfl
              have operands :
                  (literals values).length = entry.operandCount := by
                rw [length_literals, taken,
                  operandCount_of_useFault? isReference use]
              rcases settles_apply governed scopes entry operands below
                steps calls with
                  settles
                    | ⟨fewer, inner, rfl, enters, later, reached, unchecked⟩
              · exact .inl settles
              · refine .inr ⟨later, ?_, unchecked⟩
                exact .head (.into counted referring found use enters) reached

/-- The values that a cell does not take lie below those it leaves. -/
theorem settles_step
    (frame : Option Nat)
    {cell : Cell}
    {values : List Value}
    (enough : ¬ values.length < cell.pops)
    (rest : Code)
    {run : Run}
    {below : List Cell}
    {steps calls : Nat}
    (counted : tick config run = .ok () (above values below steps calls)) :
    Settles below calls (values.length - cell.pops + cell.pushes)
        (execCell config (runProgram config levels) scopes frame cell
          (above values below steps calls)) ∨
      EntersUnchecked config ⟨levels, scopes, frame, cell :: rest, run⟩ := by
  have taken : (values.take cell.pops).length = cell.pops := by
    rw [List.length_take]
    omega
  rw [above_take cell.pops values] at counted ⊢
  refine (settles_execCell governed scopes frame taken rest counted).imp_left
    fun settles => ?_
  have extended := settles.extend
  rwa [List.length_drop, Nat.add_comm] at extended

theorem settles_execCells
    (frame : Option Nat)
    (below : List Cell)
    (calls : Nat)
    {code : Code}
    {index finish : Nat}
    {values : List Value}
    (height : Code.heightFrom index values.length code = .ok finish)
    (steps : Nat) :
    Settles below calls finish
        (execCells config (runProgram config levels) scopes frame code
          (above values below steps calls)) ∨
      EntersUnchecked config
        ⟨levels, scopes, frame, code, above values below steps calls⟩ := by
  induction code generalizing index values steps with
  | nil =>
      obtain rfl : values.length = finish := by
        simpa [Code.heightFrom] using height
      exact .inl (.values values steps rfl)
  | cons cell rest inductionHypothesis =>
      simp only [Code.heightFrom] at height
      split at height
      · cases height
      rename_i enough
      have ticks :=
        (confined_tick config values.length).settles rfl below steps calls
      refine settles_bind (.inl ticks) fun others later sameLength ticked => ?_
      rw [← sameLength] at enough height
      have settles := settles_step governed scopes frame enough rest ticked
      refine settles_bind settles fun results last counted executed => ?_
      rw [← counted] at height
      rcases inductionHypothesis height last with
          settled | ⟨point, reached, refused⟩
      · exact .inl settled
      · exact .inr ⟨point, .head (.past ticked executed) reached, refused⟩

end Levels

/--
At every level of nesting, programs settle unless they enter one that is not
checked.
-/
theorem governed
    (config : Config)
    (levels : Nat) :
    Governed config levels := by
  induction levels with
  | zero =>
      intro scopes frame code below steps calls
      exact .inl (.failure _ [] steps)
  | succ levels inductionHypothesis =>
      intro scopes frame code below steps calls
      by_cases accepted : Code.check code = .ok ()
      · rw [Code.check_eq_ok] at accepted
        have start : Code.heightFrom 0 ([] : List Value).length code = .ok 1 :=
          accepted
        rcases settles_execCells inductionHypothesis scopes frame below
          (calls + 1) start steps with
            settles | unchecked
        · exact .inl settles.nested
        · exact .inr ⟨levels, rfl, unchecked⟩
      · exact .inr ⟨levels, rfl, _, .refl, .start accepted⟩

/-! Programs that pass their check. -/

/-- Checked entries pick checked programs and run them in checked scopes. -/
theorem Picks.checked
    {scopes inner : Scopes}
    {entry : Entry}
    {cells : List Cell}
    {frame : Option Nat}
    {code : Code}
    (picks : Picks scopes entry.definition cells inner frame code)
    (checked : scopes.Checked)
    (entryChecked : entry.Checked)
    (takeNothing : entry.kind = .function → ∀ cell ∈ cells, cell.pops = 0) :
    inner.Checked ∧ Code.check code = .ok () := by
  obtain ⟨name, definition⟩ := entry
  dsimp only at picks
  cases picks with
  | scalar => exact ⟨checked, entryChecked code (by simp [Entry.programs])⟩
  | array read found => exact ⟨checked, check_of_element entryChecked found⟩
  | function params =>
      exact ⟨checked.pushCells params (takeNothing rfl),
        entryChecked code (by simp [Entry.programs])⟩

/--
In checked scopes, an entry settles, when the arguments of a function take
nothing.
-/
theorem settles_of_checked
    (config : Config)
    (levels : Nat)
    {scopes : Scopes}
    (checked : scopes.Checked)
    {entry : Entry}
    (entryChecked : entry.Checked)
    {operands : List Cell}
    (counted : operands.length = entry.operandCount)
    (takeNothing : entry.kind = .function → ∀ cell ∈ operands, cell.pops = 0)
    (below : List Cell)
    (steps calls : Nat) :
    Settles below calls 1
      (apply config (runProgram config levels) scopes entry
        ⟨⟨operands ++ below⟩, steps, calls⟩) := by
  rcases apply_cases config (runProgram config levels) scopes entry counted
    below steps calls with
      settles | ⟨inner, frame, code, picks, same⟩
  · exact settles
  · have argumentsTakeNothing (isFunction : entry.kind = .function) :
        ∀ cell ∈ operands.reverse, cell.pops = 0 :=
      fun cell member =>
        takeNothing isFunction cell (List.mem_reverse.mp member)
    obtain ⟨innerChecked, accepted⟩ :=
      picks.checked checked entryChecked argumentsTakeNothing
    have confined :=
      runProgram_confines config levels inner frame code innerChecked accepted
    rw [same]
    exact (confined.settles rfl below steps calls).inside entry.name

end Eval

end Formulary
