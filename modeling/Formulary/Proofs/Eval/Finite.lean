import Formulary.Proofs.Eval.Confined
import Formulary.Proofs.Eval.Faults
import Formulary.Proofs.Number.Double

namespace Formulary

open Stateful

/-!
# Finite values

No operation gives a double that is not finite: what overflows is refused.  So
only a table can bring such a double about, by the line through two of its
points.  Where the tables in scope do not, every evaluation of finite values
gives finite values.
-/

/-- A value that, if it is a double, is finite. -/
def Value.Finite : Value → Prop
  | .double x => x.isFinite = true
  | _ => True

/-- A cell that, if it is a literal, is that of a finite value. -/
def Cell.Finite : Cell → Prop
  | .literal value => value.Finite
  | _ => True

/-- A program all of whose literals are finite. -/
def Code.Finite (code : Code) : Prop :=
  ∀ cell ∈ code, cell.Finite

def Stack.Finite (stack : Stack) : Prop :=
  ∀ cell ∈ stack.cells, cell.Finite

/-- A table whose values are finite, within its points and beyond. -/
def Curve.Finite (extrapolation : Curve.Extrapolation) (curve : Curve) : Prop :=
  ∀ x y, curve.valueAt extrapolation x = .ok y → y.isFinite = true

/--
An entry all of whose literals, and all of whose values as a table, are finite.
-/
structure Entry.Finite
    (extrapolation : Curve.Extrapolation)
    (entry : Entry) :
    Prop where
  programs : ∀ code ∈ entry.programs, code.Finite
  curve : ∀ curve, entry.definition = .curve curve → curve.Finite extrapolation

/-- A result that, if there is one, has a property. -/
def Yields (holds : α → Prop) (result : Except ε α) : Prop :=
  ∀ a, result = .ok a → holds a

namespace Yields

variable {holds : α → Prop}

theorem ok
    {a : α}
    (isHeld : holds a) :
    Yields holds (.ok a : Except ε α) := by
  intro b same
  cases same
  exact isHeld

theorem error (refused : ε) : Yields holds (.error refused) :=
  nofun

theorem any (result : Except ε α) : Yields (fun _ => True) result :=
  fun _ _ => trivial

theorem bind
    {first : Except ε β}
    {rest : β → Except ε α}
    (later : ∀ b, Yields holds (rest b)) :
    Yields holds (first >>= rest) := by
  cases first with
  | ok b => exact later b
  | error refused => exact .error refused

theorem map
    {result : Except ε β}
    {wrap : β → α}
    (each : ∀ b, holds (wrap b)) :
    Yields holds (result.map wrap) := by
  cases result with
  | ok b => exact .ok (each b)
  | error refused => exact .error refused

end Yields

theorem Double.isFinite_neg
    {x : Double}
    (isFinite : x.isFinite = true) :
    x.neg.isFinite = true := by
  rw [Double.isFinite, Double.magnitude_neg]
  exact isFinite

namespace Op

theorem finite_finite
    (op : Op)
    (y : Double) :
    Yields Value.Finite (finite op y) := by
  unfold finite
  split
  · rename_i isFinite
    exact .ok isFinite
  · exact .error _

theorem finite_ofBuiltinResult
    {result : Except Builtin.Fault Double}
    (finite : Yields (fun y => y.isFinite = true) result) :
    Yields Value.Finite (ofBuiltinResult result) := by
  cases result with
  | ok y => exact .ok (finite y rfl)
  | error fault => exact .error _

theorem finite_fits
    (result : Option Int64)
    (fault : ArithmeticFault) :
    Yields Value.Finite (fits result fault) := by
  cases result with
  | some n => exact .ok trivial
  | none => exact .error _

end Op

namespace Builtin

theorem finite_finite
    (builtin : Builtin)
    (y : Double) :
    Yields (fun y => y.isFinite = true) (builtin.finite y) := by
  unfold finite
  split
  · rename_i isFinite
    exact .ok isFinite
  · exact .error _

theorem finite_apply₁
    (builtin : Builtin)
    (x : Double) :
    Yields (fun y => y.isFinite = true) (builtin.apply₁ x) := by
  unfold apply₁
  split
  · exact .error _
  · exact builtin.finite_finite _

theorem finite_apply₂
    (builtin : Builtin)
    (a b : Double) :
    Yields (fun y => y.isFinite = true) (builtin.apply₂ a b) := by
  unfold apply₂
  split
  · exact finite_finite _ _
  · exact finite_finite _ _
  · exact finite_finite _ _
  · exact finite_finite _ _
  · exact .error _

end Builtin

namespace Op

/-- Only a change of sign gives a double as it was. -/
theorem finite_unaryNumber
    (op : Op)
    {value : Value}
    (isFinite : value.Finite) :
    Yields Value.Finite (unaryNumber op value) := by
  unfold unaryNumber
  split <;> first
    | exact .ok trivial
    | exact finite_fits _ _
    | exact finite_finite _ _
    | exact finite_ofBuiltinResult (Builtin.finite_apply₁ _ _)
    | exact .map fun _ => trivial
    | exact .error _
    | exact .ok (Double.isFinite_neg isFinite)

theorem finite_unary
    (op : Op)
    {operand : Cell}
    (isFinite : operand.Finite) :
    Yields Value.Finite (op.unary operand) := by
  unfold unary
  split
  · exact finite_unaryNumber op isFinite
  · split
    · exact .error _
    · exact .error _

theorem finite_integerArithmetic
    (op : BinaryOp)
    (a b : Int64) :
    Yields Value.Finite (integerArithmetic op a b) := by
  unfold integerArithmetic
  split
  · exact finite_fits _ _
  · exact finite_fits _ _
  · exact finite_fits _ _
  · split
    · exact .error _
    · exact finite_fits _ _

theorem finite_doubleArithmetic
    (op : BinaryOp)
    (x y : Double) :
    Yields Value.Finite (doubleArithmetic op x y) := by
  unfold doubleArithmetic
  split
  · exact finite_finite _ _
  · exact finite_finite _ _
  · exact finite_finite _ _
  · split
    · exact .error _
    · exact finite_finite _ _

theorem finite_arithmetic
    (op : BinaryOp)
    (a b : Cell) :
    Yields Value.Finite (arithmetic op a b) := by
  unfold arithmetic
  split
  · exact finite_integerArithmetic op _ _
  · exact .bind fun _ => finite_doubleArithmetic op _ _

theorem finite_decideOrder
    (test : Ordering → Bool)
    (order : Option Ordering) :
    Yields Value.Finite (decideOrder test order) := by
  cases order with
  | some order => exact .ok trivial
  | none => exact .error _

theorem finite_compareCells
    (op : BinaryOp)
    (test : Ordering → Bool)
    (a b : Cell) :
    Yields Value.Finite (compareCells op test a b) := by
  unfold compareCells
  split
  · exact finite_decideOrder test _
  · exact finite_decideOrder test _
  · split
    · exact .ok trivial
    · exact .ok trivial
    · exact .error _
  · split
    · exact finite_decideOrder test _
    · exact .error _

theorem finite_builtinPair
    (builtin : Builtin)
    (a b : Cell) :
    Yields Value.Finite (builtinPair builtin a b) := by
  unfold builtinPair
  split
  · exact .ok trivial
  · exact .ok trivial
  · exact .bind fun _ => finite_ofBuiltinResult (builtin.finite_apply₂ _ _)

/-- Operations on two operands give finite values, whatever the operands are. -/
theorem finite_binaryResult
    (op : Op)
    (a b : Cell) :
    Yields Value.Finite (op.binaryResult a b) := by
  unfold binaryResult
  split
  · exact .bind fun _ => finite_finite _ _
  · split
    · exact finite_compareCells _ _ a b
    · exact finite_arithmetic _ a b
  · exact finite_builtinPair _ a b
  · exact .error _

end Op

theorem Code.finite_push
    {value : Value}
    (isFinite : value.Finite) :
    (Code.push value).Finite := by
  intro cell member
  obtain rfl := List.mem_singleton.mp member
  exact isFinite

/-- Every entry in any scope is finite. -/
structure Scopes.Finite
    (extrapolation : Curve.Extrapolation)
    (scopes : Scopes) :
    Prop where
  globals : ∀ entry ∈ scopes.globals.entries, entry.Finite extrapolation
  frames :
    ∀ frame ∈ scopes.frames, ∀ entry ∈ frame.entries, entry.Finite extrapolation

namespace Scopes.Finite

variable
  {extrapolation : Curve.Extrapolation}
  {scopes : Scopes}
  (finite : scopes.Finite extrapolation)

include finite

/-- Calling a function on finite cells keeps every entry finite. -/
theorem push
    (params : List String)
    {cells : List Cell}
    (cellsFinite : ∀ cell ∈ cells, cell.Finite) :
    (scopes.push (Bindings.ofArguments params cells)).Finite extrapolation := by
  refine ⟨finite.globals, forall_frames_push finite.frames params ?_⟩
  intro cell isArgument param
  refine ⟨?_, nofun⟩
  intro code isProgram
  obtain rfl := List.mem_singleton.mp isProgram
  exact List.forall_mem_singleton.mpr (cellsFinite cell isArgument)

theorem of_mem
    {entry : Entry}
    (member :
      (∃ frame ∈ scopes.frames, entry ∈ frame.entries) ∨
        entry ∈ scopes.globals.entries) :
    entry.Finite extrapolation := by
  rcases member with ⟨frame, isFrame, held⟩ | isGlobal
  · exact finite.frames frame isFrame entry held
  · exact finite.globals entry isGlobal

end Scopes.Finite

/-! Evaluations on stacks of finite cells. -/

namespace Eval

/--
An evaluation that, when it succeeds on a stack of finite cells, leaves finite
cells and gives something with a property.
-/
def StaysFinite (gives : α → Prop) (action : Eval α) : Prop :=
  ∀ run a next,
    run.stack.Finite → action run = .ok a next → next.stack.Finite ∧ gives a

/-- An evaluation that leaves finite cells. -/
abbrev Finitary (action : Eval Unit) : Prop :=
  StaysFinite (fun _ => True) action

namespace StaysFinite

variable {gives : α → Prop}

theorem pure
    {a : α}
    (isHeld : gives a) :
    StaysFinite gives (pure a : Eval α) := by
  intro run b next finite succeeds
  cases succeeds
  exact ⟨finite, isHeld⟩

theorem fail (fault : Fault) : StaysFinite gives (fail fault) := by
  intro run a next _ succeeds
  cases succeeds

theorem ofExcept
    {result : Except Fault α}
    (yields : Yields gives result) :
    StaysFinite gives (ofExcept result) := by
  cases result with
  | ok a => exact .pure (yields a rfl)
  | error fault => exact .fail fault

theorem bind
    {gives : β → Prop}
    {also : α → Prop}
    {first : Eval α}
    {rest : α → Eval β}
    (firstStays : StaysFinite also first)
    (restStays : ∀ a, also a → StaysFinite gives (rest a)) :
    StaysFinite gives (first >>= rest) := by
  intro run b next finite succeeds
  obtain ⟨a, between, firstSucceeds, restSucceeds⟩ := bind_eq_ok.mp succeeds
  obtain ⟨betweenFinite, isHeld⟩ :=
    firstStays run a between finite firstSucceeds
  exact restStays a isHeld between b next betweenFinite restSucceeds

theorem push
    {cell : Cell}
    (cellFinite : cell.Finite) :
    Finitary (push cell) := by
  intro run a next finite succeeds
  cases succeeds
  exact ⟨List.forall_mem_cons.mpr ⟨cellFinite, finite⟩, trivial⟩

theorem pop : StaysFinite Cell.Finite pop := by
  intro run cell next finite succeeds
  obtain ⟨⟨cells⟩, steps, callDepth⟩ := run
  cases cells with
  | nil => cases succeeds
  | cons top below =>
      cases succeeds
      obtain ⟨topFinite, belowFinite⟩ := List.forall_mem_cons.mp finite
      exact ⟨belowFinite, topFinite⟩

theorem popMany (count : Nat) :
    StaysFinite (fun cells => ∀ cell ∈ cells, cell.Finite) (popMany count) := by
  intro run cells next finite succeeds
  by_cases enough : run.stack.depth < count
  · simp only [Eval.popMany, bind_get, Stack.popMany, if_pos enough] at succeeds
    cases succeeds
  · simp only [Eval.popMany, bind_get, Stack.popMany, if_neg enough] at succeeds
    cases succeeds
    constructor
    · exact fun cell member => finite cell (List.mem_of_mem_drop member)
    · exact fun cell member =>
        finite cell (List.mem_of_mem_take (List.mem_reverse.mp member))

theorem inside
    {action : Eval Unit}
    (stays : Finitary action)
    (entry : String) :
    Finitary (Eval.inside entry action) := by
  intro run a next finite succeeds
  unfold Eval.inside at succeeds
  split at succeeds
  · rename_i b between outcome
    cases succeeds
    exact stays run _ _ finite outcome
  · cases succeeds

theorem nested
    {action : Eval Unit}
    (stays : Finitary action) :
    Finitary (nested action) := by
  intro run a next finite succeeds
  unfold Eval.nested at succeeds
  split at succeeds
  · rename_i b between outcome
    cases succeeds
    exact stays { run with callDepth := run.callDepth + 1 } _ between
      finite outcome
  · cases succeeds

theorem tick (config : Config) : Finitary (tick config) := by
  intro run a next finite succeeds
  rw [tick_apply] at succeeds
  split at succeeds
  · cases succeeds
  · cases succeeds
    exact ⟨finite, trivial⟩

theorem operate (op : Op) : Finitary (operate op) := by
  unfold Eval.operate
  split
  · exact .bind .pop fun a aFinite =>
      .bind (.ofExcept (op.finite_unary aFinite)) fun value valueFinite =>
        .push valueFinite
  · exact .bind .pop fun b _ => .bind .pop fun a _ =>
      .bind (.ofExcept (op.finite_binaryResult a b)) fun value valueFinite =>
        .push valueFinite

end StaysFinite

/-- A way of running programs that keeps finite programs finite. -/
def Runner.Finitary
    (extrapolation : Curve.Extrapolation)
    (runner : Runner) :
    Prop :=
  ∀ (scopes : Scopes) (frame : Option Nat) (code : Code),
    scopes.Finite extrapolation → code.Finite →
      Eval.Finitary (runner scopes frame code)

section Programs

variable
  {config : Config}
  {runner : Runner}
  (runs : runner.Finitary config.extrapolation)
  {scopes : Scopes}
  (finite : scopes.Finite config.extrapolation)

include runs finite

theorem finitary_apply
    {entry : Entry}
    (entryFinite : entry.Finite config.extrapolation) :
    Finitary (apply config runner scopes entry) := by
  refine StaysFinite.inside ?_ entry.name
  obtain ⟨name, definition⟩ := entry
  cases definition with
  | scalar code =>
      exact runs scopes none code finite
        (entryFinite.programs code (by simp [Entry.programs]))
  | array grid =>
      have elements (indices : List Int64) :
          Yields Code.Finite
            ((grid.element indices).mapError (Fault.index name)) := by
        intro code found
        rcases Grid.mem_of_element (except_mapError_eq_ok.mp found) with
            isElement | rfl
        · exact entryFinite.programs code isElement
        · exact Code.finite_push trivial
      exact .bind (.popMany _) fun cells _ =>
        .bind (.ofExcept (.any _)) fun indices _ =>
          .bind (.ofExcept (elements indices)) fun code codeFinite =>
            runs scopes none code finite codeFinite
  | function params body =>
      exact .bind (.popMany _) fun arguments argumentsFinite =>
        runs _ _ body (finite.push params argumentsFinite)
          (entryFinite.programs body (by simp [Entry.programs]))
  | curve curve =>
      have values (x : Double) :
          Yields (fun y => y.isFinite = true)
            ((curve.valueAt config.extrapolation x).mapError
              Fault.curveDomain) :=
        fun y found =>
          entryFinite.curve curve rfl x y (except_mapError_eq_ok.mp found)
      exact .bind .pop fun cell _ => .bind (.ofExcept (.any _)) fun x _ =>
        .bind (.ofExcept (values x)) fun y yFinite => .push yFinite

omit runs in
/-- What a name resolves to is finite. -/
theorem staysFinite_resolve
    (frame : Option Nat)
    (name : String) :
    StaysFinite (Entry.Finite config.extrapolation)
      (resolve config scopes frame name) := by
  rw [resolve_eq]
  cases found : lookup? config scopes frame name with
  | none => exact .fail _
  | some entry => exact .pure (finite.of_mem (mem_of_lookup? found))

theorem finitary_execCell
    (frame : Option Nat)
    {cell : Cell}
    (cellFinite : cell.Finite) :
    Finitary (execCell config runner scopes frame cell) := by
  cases referring : cell.reference? with
  | none =>
      cases cell with
      | literal value => exact .push cellFinite
      | op operation => exact .operate operation
      | «variable» | lookup | call | element => cases referring
  | some name =>
      rw [execCell_reference frame referring]
      refine .bind (staysFinite_resolve finite frame name)
        fun entry entryFinite => ?_
      cases useFault? cell entry with
      | some fault => exact .fail fault
      | none => exact finitary_apply runs finite entryFinite

theorem finitary_execCells
    (frame : Option Nat)
    {code : Code}
    (codeFinite : code.Finite) :
    Finitary (execCells config runner scopes frame code) := by
  induction code with
  | nil => exact .pure trivial
  | cons cell rest inductionHypothesis =>
      obtain ⟨cellFinite, restFinite⟩ := List.forall_mem_cons.mp codeFinite
      exact .bind (.tick config) fun _ _ =>
        .bind (finitary_execCell runs finite frame cellFinite) fun _ _ =>
          inductionHypothesis restFinite

end Programs

/--
Where no table gives other values, programs of finite literals leave finite
values.
-/
theorem runProgram_finitary
    (config : Config)
    (levels : Nat) :
    (runProgram config levels).Finitary config.extrapolation := by
  induction levels with
  | zero =>
      intro scopes frame code _ _
      exact .fail _
  | succ levels inductionHypothesis =>
      intro scopes frame code finite codeFinite
      exact .nested
        (finitary_execCells inductionHypothesis finite frame codeFinite)

end Eval

end Formulary
