import Formulary.Proofs.Eval.Confined
import Formulary.Proofs.Eval.Faults
import Formulary.Proofs.Load.WellFormed

namespace Formulary

open Stateful

/-!
# Names that resolve and operands that are there

When every program refers only to global names and to the parameters of its own
function, each of its names resolves wherever it runs, under either policy: the
global scope is always searched, and a body runs inside the frame of its own
arguments.  When its height is checked, too, each of its cells finds its
operands.  What remains are ordinary faults, of values and of limits.
-/

namespace Fault

/-- Neither a name nor an operand is missing. -/
def Ordinary (fault : Fault) : Prop :=
  fault.label ≠ .unboundName ∧ fault.label ≠ .stackUnderflow

instance (fault : Fault) : Decidable fault.Ordinary :=
  inferInstanceAs (Decidable (_ ∧ _))

theorem ordinary_type (fault : TypeFault) : (type fault).Ordinary :=
  ⟨nofun, nofun⟩

theorem ordinary_index
    (array : String)
    (fault : IndexFault) :
    (index array fault).Ordinary :=
  ⟨nofun, nofun⟩

theorem ordinary_nonTermination
    (limit : Limit) :
    (nonTermination limit).Ordinary :=
  ⟨nofun, nofun⟩

/-- No fault of values is that of a name or operand that is missing. -/
theorem OfValues.ordinary
    {fault : Fault}
    (ofValues : fault.OfValues) :
    fault.Ordinary := by
  cases fault with
  | arithmetic | type | index | nonTermination | curveDomain =>
      exact ⟨nofun, nofun⟩
  | unboundName | stackUnderflow | stated => cases ofValues

theorem Only.ordinary
    {result : Except Fault α}
    (only : Only OfValues result) :
    Only Ordinary result :=
  fun fault refused => (only fault refused).ordinary

end Fault

open Fault

theorem Bindings.mem_names_ofEntries
    {entries : List Entry}
    {name : String} :
    name ∈ (ofEntries entries).names ↔ name ∈ entries.map Entry.name := by
  have grown :
      ∀ (entries : List Entry) (bindings : Bindings),
        name ∈ (entries.foldl insert bindings).names ↔
          name ∈ bindings.names ∨ name ∈ entries.map Entry.name := by
    intro entries
    induction entries with
    | nil =>
        intro bindings
        simp
    | cons first rest inductionHypothesis =>
        intro bindings
        rw [List.foldl_cons, inductionHypothesis, mem_names_insert,
          List.map_cons, List.mem_cons]
        tauto
  rw [ofEntries, grown]
  exact or_iff_right List.not_mem_nil

/--
The parameters are bound, and nothing else, when there are as many arguments.
-/
theorem Bindings.mem_names_ofArguments
    {params : List String}
    {arguments : List Cell}
    (counted : arguments.length = params.length)
    {name : String} :
    name ∈ (ofArguments params arguments).names ↔ name ∈ params := by
  have names : (List.zipWith Entry.argument params arguments).map Entry.name =
      params := by
    rw [← List.map_uncurry_zip_eq_zipWith, List.map_map]
    exact List.map_fst_zip (Nat.le_of_eq counted.symm)
  rw [ofArguments, mem_names_ofEntries, names]

theorem Bindings.isSome_get?_of_mem_names
    {bindings : Bindings}
    {name : String}
    (member : name ∈ bindings.names) :
    (bindings.get? name).isSome := by
  rw [Option.isSome_iff_ne_none]
  exact fun missing => get?_eq_none_iff.mp missing member

/--
Every program in any scope refers only to global names and its own parameters.
-/
structure Scopes.Linked (scopes : Scopes) : Prop where
  globals :
    ∀ entry ∈ scopes.globals.entries, entry.RefersTo (· ∈ scopes.globals.names)
  frames :
    ∀ frame ∈ scopes.frames, ∀ entry ∈ frame.entries,
      entry.RefersTo (· ∈ scopes.globals.names)

namespace Scopes

/-- The arguments of a call refer to nothing. -/
theorem Linked.push
    {scopes : Scopes}
    (linked : scopes.Linked)
    (params : List String)
    (values : List Value) :
    (scopes.push
      (Bindings.ofArguments params (Eval.literals values))).Linked := by
  refine ⟨linked.globals, forall_frames_push linked.frames params ?_⟩
  intro argument isArgument param code isProgram cell isCell name reference
  obtain ⟨value, -, rfl⟩ := List.mem_map.mp isArgument
  obtain rfl := List.mem_singleton.mp isProgram
  obtain rfl := List.mem_singleton.mp isCell
  cases reference

theorem Linked.of_mem
    {scopes : Scopes}
    (linked : scopes.Linked)
    {entry : Entry}
    (member :
      (∃ frame ∈ scopes.frames, entry ∈ frame.entries) ∨
        entry ∈ scopes.globals.entries) :
    entry.RefersTo (· ∈ scopes.globals.names) := by
  rcases member with ⟨frame, isFrame, held⟩ | isGlobal
  · exact linked.frames frame isFrame entry held
  · exact linked.globals entry isGlobal

end Scopes

namespace Eval

/-- A global name resolves inside every frame. -/
theorem isSome_lookup?_of_global
    (config : Config)
    {scopes : Scopes}
    (frame : Option Nat)
    {name : String}
    (member : name ∈ scopes.globals.names) :
    (lookup? config scopes frame name).isSome := by
  have bound := Bindings.isSome_get?_of_mem_names member
  unfold lookup?
  cases config.nameResolution with
  | dynamic => simp [Scopes.find?, bound]
  | lexical => simp [Scopes.resolve?, bound]

/-- A parameter stands for its argument inside the body, under either policy. -/
theorem lookup?_param
    (config : Config)
    (scopes : Scopes)
    {frame : Bindings}
    {name : String}
    (isParam : name ∈ frame.names) :
    lookup? config (scopes.push frame) (some scopes.depth) name =
      frame.get? name := by
  obtain ⟨entry, bound⟩ :=
    Option.isSome_iff_exists.mp (Bindings.isSome_get?_of_mem_names isParam)
  unfold lookup?
  cases config.nameResolution with
  | dynamic => simp [Scopes.find?, Scopes.push, bound]
  | lexical => simp [Scopes.resolve?, Scopes.scope?_push, bound]

/-- A parameter resolves inside the frame of a call. -/
theorem isSome_lookup?_of_param
    (config : Config)
    (scopes : Scopes)
    {frame : Bindings}
    {name : String}
    (member : name ∈ frame.names) :
    (lookup? config (scopes.push frame) (some scopes.depth) name).isSome := by
  rw [lookup?_param config scopes member]
  exact Bindings.isSome_get?_of_mem_names member

/-- Every name in a program resolves. -/
def Resolves
    (config : Config)
    (scopes : Scopes)
    (frame : Option Nat)
    (code : Code) :
    Prop :=
  ∀ cell ∈ code, ∀ name, cell.reference? = some name →
    (lookup? config scopes frame name).isSome

/--
An evaluation that, given the values it takes, fails for ordinary reasons only.
-/
def Orderly (takes : Nat) (action : Eval Unit) : Prop :=
  ∀ (values : List Value) (below : List Cell) (steps calls : Nat),
    values.length = takes →
    ∀ failure run,
      action (above values below steps calls) = .error failure run →
      failure.fault.Ordinary

namespace Orderly

/--
One evaluation after another, when the first leaves what the second takes.
-/
theorem andThen
    {takes between : Nat}
    {first second : Eval Unit}
    (confined : Confined takes between first)
    (firstOrderly : Orderly takes first)
    (secondOrderly : Orderly between second) :
    Orderly takes (first >>= fun _ => second) := by
  intro values below steps calls taken failure run fails
  rcases bind_eq_error.mp fails with
      failsFirst | ⟨_, next, succeedsFirst, failsSecond⟩
  · exact firstOrderly values below steps calls taken failure run failsFirst
  · rcases confined below.length steps calls values taken with
        ⟨results, resultsLength, later, succeeds⟩
          | ⟨other, rubble, later, failsToo⟩
    · rw [succeeds below rfl] at succeedsFirst
      cases succeedsFirst
      exact secondOrderly results below later calls resultsLength failure
        run failsSecond
    · rw [failsToo below rfl] at succeedsFirst
      cases succeedsFirst

/-- More values may lie below those that are taken. -/
theorem extend
    {takes : Nat}
    {action : Eval Unit}
    (orderly : Orderly takes action)
    (more : Nat) :
    Orderly (takes + more) action := by
  intro values below steps calls taken failure run fails
  rw [above_take takes] at fails
  exact orderly (values.take takes) _ steps calls
    (by rw [List.length_take]; omega) failure run fails

theorem inside
    {takes : Nat}
    {action : Eval Unit}
    (orderly : Orderly takes action)
    (entry : String) :
    Orderly takes (Eval.inside entry action) := by
  intro values below steps calls taken failure run fails
  unfold Eval.inside at fails
  split at fails
  · cases fails
  · rename_i inner later failsInside
    cases fails
    exact orderly values below steps calls taken inner _ failsInside

theorem nested
    {takes : Nat}
    {action : Eval Unit}
    (orderly : Orderly takes action) :
    Orderly takes (Eval.nested action) := by
  intro values below steps calls taken failure run fails
  unfold Eval.nested at fails
  split at fails
  · cases fails
  · rename_i inner later failsInside
    cases fails
    exact orderly values below steps (calls + 1) taken _ _ failsInside

theorem fail
    {fault : Fault}
    (ordinary : fault.Ordinary)
    (takes : Nat) :
    Orderly takes (Eval.fail fault) := by
  intro values below steps calls _ failure run fails
  cases fails
  exact ordinary

theorem push
    (takes : Nat)
    (cell : Cell) :
    Orderly takes (Eval.push cell) := by
  intro values below steps calls _ failure run fails
  cases fails

/-- Counting a cell fails at a limit only. -/
theorem tick
    (config : Config)
    (takes : Nat) :
    Orderly takes (Eval.tick config) := by
  intro values below steps calls _ failure run fails
  rw [tick_apply] at fails
  split at fails
  · cases fails
    exact ordinary_nonTermination _
  · cases fails

theorem ofPop
    {takes : Nat}
    {rest : Cell → Eval Unit}
    (orderly : ∀ value, Orderly takes (rest (.literal value))) :
    Orderly (takes + 1) (pop >>= rest) := by
  intro values below steps calls taken failure run fails
  obtain ⟨top, others, rfl⟩ := List.exists_cons_of_length_eq_add_one taken
  have popped :
      pop (above (top :: others) below steps calls) =
        .ok (.literal top) (above others below steps calls) :=
    rfl
  rw [bind_of_ok popped] at fails
  exact orderly top others below steps calls (by simpa using taken)
    failure run fails

theorem ofPopMany
    {takes : Nat}
    {rest : List Cell → Eval Unit}
    (orderly :
      ∀ values : List Value,
        values.length = takes → Orderly 0 (rest (literals values))) :
    Orderly takes (popMany takes >>= rest) := by
  intro values below steps calls taken failure run fails
  rw [bind_of_ok (popMany_above taken below steps calls)] at fails
  exact orderly values.reverse (by simpa using taken) [] below steps calls rfl
    failure run fails

theorem ofExcept
    {takes : Nat}
    {result : Except Fault α}
    {rest : α → Eval Unit}
    (ordinary : Only Ordinary result)
    (orderly : ∀ a, result = .ok a → Orderly takes (rest a)) :
    Orderly takes (ofExcept result >>= rest) := by
  cases result with
  | ok a => exact orderly a rfl
  | error fault =>
      intro values below steps calls _ failure run fails
      cases fails
      exact ordinary fault rfl

end Orderly

theorem orderly_operate (op : Op) : Orderly op.arity (operate op) := by
  by_cases single : op.arity = 1
  · simp only [operate, single, if_true]
    exact .ofPop fun a =>
      .ofExcept (op.onlyOfValues_unary single _).ordinary fun value _ =>
        .push 0 _
  · have double : op.arity = 2 := by
      cases op <;> simp_all [Op.arity]
    simp only [operate, double]
    exact .ofPop fun b => .ofPop fun a =>
      .ofExcept ((op.onlyOfValues_binaryResult double _ _).ordinary)
        fun value _ => .push 0 _

theorem ordinary_of_useFault?
    {cell : Cell}
    {entry : Entry}
    {fault : Fault}
    (refused : useFault? cell entry = some fault) :
    fault.Ordinary := by
  unfold useFault? at refused
  split at refused
  · split at refused <;> cases refused
    exact ordinary_type _
  · split at refused <;> cases refused
    exact ordinary_type _
  · split at refused
    · cases refused
      exact ordinary_type _
    · split at refused <;> cases refused
      exact ordinary_type _
  · split at refused
    · cases refused
      exact ordinary_type _
    · split at refused <;> cases refused
      exact ordinary_index _ _
  · cases refused

/--
A way of running programs that leaves only ordinary faults to those that are
checked.
-/
def Runner.Orders (config : Config) (runner : Runner) : Prop :=
  ∀ (scopes : Scopes) (frame : Option Nat) (code : Code),
    scopes.Checked → scopes.Linked → Code.check code = .ok () →
      Resolves config scopes frame code → Orderly 0 (runner scopes frame code)

section Programs

variable
  {config : Config}
  {runner : Runner}
  (orders : runner.Orders config)
  {scopes : Scopes}
  (checked : scopes.Checked)
  (linked : scopes.Linked)

include orders checked linked

/-- An entry on its operands. -/
theorem orderly_apply
    {entry : Entry}
    (entryChecked : entry.Checked)
    (closed : entry.RefersTo (· ∈ scopes.globals.names)) :
    Orderly entry.operandCount (apply config runner scopes entry) := by
  refine Orderly.inside ?_ entry.name
  obtain ⟨name, definition⟩ := entry
  -- Programs that are run outside every frame refer to global names.
  have outside {code : Code}
    (isProgram : code ∈ Entry.programs ⟨name, definition⟩)
      (noParams : Entry.params ⟨name, definition⟩ = []) :
      Resolves config scopes none code := by
    intro cell isCell reference refers
    rcases closed code isProgram cell isCell reference refers with
        isGlobal | isParam
    · exact isSome_lookup?_of_global config none isGlobal
    · rw [noParams] at isParam
      cases isParam
  cases definition with
  | scalar code =>
      have isProgram : code ∈ Entry.programs ⟨name, .scalar code⟩ := by
        simp [Entry.programs]
      exact orders scopes none code checked linked (entryChecked code isProgram)
        (outside isProgram rfl)
  | array grid =>
      refine .ofPopMany fun values _ =>
        .ofExcept ((Cell.onlyOfValues_indices _).ordinary) fun indices _ =>
          .ofExcept (.mapError fun fault _ => ordinary_index name fault)
            fun code found => ?_
      have element := except_mapError_eq_ok.mp found
      refine orders scopes none code checked linked
        (check_of_element entryChecked element) ?_
      rcases Grid.mem_of_element element with isElement | rfl
      · exact outside isElement rfl
      · intro cell isCell reference refers
        obtain rfl := List.mem_singleton.mp isCell
        cases refers
  | function params body =>
      have isProgram : body ∈ Entry.programs ⟨name, .function params body⟩ := by
        simp [Entry.programs]
      refine .ofPopMany fun values counted => ?_
      refine orders _ _ body (checked.push params values)
        (linked.push params values) (entryChecked body isProgram) ?_
      intro cell isCell reference refers
      rcases closed body isProgram cell isCell reference refers with
          isGlobal | isParam
      · exact isSome_lookup?_of_global config _ isGlobal
      · refine isSome_lookup?_of_param config scopes ?_
        exact (Bindings.mem_names_ofArguments
          ((length_literals values).trans counted)).mpr isParam
  | curve curve =>
      exact .ofPop fun value =>
          .ofExcept ((Cell.onlyOfValues_number _).ordinary) fun x _ =>
        .ofExcept (curve.onlyOfValues_valueAt config.extrapolation x).ordinary
          fun y _ => .push 0 _

/-- A reference whose name resolves. -/
theorem orderly_reference
    {frame : Option Nat}
    {cell : Cell}
    {name : String}
    (reference : cell.reference?.isSome)
    (resolves : (lookup? config scopes frame name).isSome) :
    Orderly cell.pops
      (resolve config scopes frame name >>= fun entry =>
        match useFault? cell entry with
        | some fault => fail fault
        | none => apply config runner scopes entry) := by
  obtain ⟨entry, found⟩ := Option.isSome_iff_exists.mp resolves
  rw [resolve_eq, found]
  have member := mem_of_lookup? found
  change Orderly cell.pops
    (match useFault? cell entry with
      | some fault => fail fault
      | none => apply config runner scopes entry)
  cases use : useFault? cell entry with
  | some fault => exact .fail (ordinary_of_useFault? use) _
  | none =>
      rw [← operandCount_of_useFault? reference use]
      exact orderly_apply orders checked linked (checked.of_mem member)
        (linked.of_mem member)

theorem orderly_execCell
    (frame : Option Nat)
    {cell : Cell}
    (resolves :
      ∀ name, cell.reference? = some name →
        (lookup? config scopes frame name).isSome) :
    Orderly cell.pops (execCell config runner scopes frame cell) := by
  cases cell with
  | literal value => exact .push 0 _
  | op operation => exact orderly_operate operation
  | «variable» name =>
      exact orderly_reference orders checked linked rfl (resolves name rfl)
  | lookup name =>
      exact orderly_reference orders checked linked rfl (resolves name rfl)
  | call name arity =>
      exact orderly_reference orders checked linked rfl (resolves name rfl)
  | element name rank =>
      exact orderly_reference orders checked linked rfl (resolves name rfl)

/-- Cells find as many values as the height says. -/
theorem orderly_execCells
    (confines : runner.Confines)
    (frame : Option Nat)
    {code : Code}
    {index start finish : Nat}
    (height : Code.heightFrom index start code = .ok finish)
    (resolves : Resolves config scopes frame code) :
    Orderly start (execCells config runner scopes frame code) := by
  induction code generalizing index start with
  | nil =>
      intro values below steps calls _ failure run fails
      cases fails
  | cons cell rest inductionHypothesis =>
      have restResolves : Resolves config scopes frame rest :=
        fun other member =>
          resolves other (List.mem_cons_of_mem cell member)
      simp only [Code.heightFrom] at height
      split at height
      · cases height
      · rename_i enough
        have split : cell.pops + (start - cell.pops) = start := by omega
        have executed :
            Orderly start (execCell config runner scopes frame cell) := by
          rw [← split]
          exact (orderly_execCell orders checked linked frame
            (resolves cell List.mem_cons_self)).extend _
        have leaves :
            Confined start (start - cell.pops + cell.pushes)
              (execCell config runner scopes frame cell) :=
          confined_step confines checked frame enough
        exact .andThen (confined_tick config start) (.tick config start)
          (.andThen leaves executed (inductionHypothesis height restResolves))

end Programs

/-- Programs fail for ordinary reasons only, at every level of nesting. -/
theorem runProgram_orders
    (config : Config)
    (levels : Nat) :
    (runProgram config levels).Orders config := by
  induction levels with
  | zero =>
      intro scopes frame code _ _ _ _
      exact .fail (ordinary_nonTermination _) 0
  | succ levels inductionHypothesis =>
      intro scopes frame code checked linked accepted resolves
      rw [Code.check_eq_ok] at accepted
      exact (orderly_execCells inductionHypothesis checked linked
        (runProgram_confines config levels) frame accepted resolves).nested

end Eval

end Formulary
