import Formulary.Proofs.Entry.Constant
import Formulary.Proofs.Load.Finite
import Formulary.Proofs.Machine.Given
import Formulary.Proofs.Machine.Resolution

namespace Formulary

open Stateful

/-!
# The constants of a machine read back

The scalars of a loaded machine are written as the constants they evaluate to.
Loading these gives the same scalars with the same values, exactly when all of
them are values that can be written.
-/

namespace Machine

/-- A name is that of a scalar with a given value. -/
def Gives (machine : Machine) (name : String) (value : Value) : Prop :=
  given (scalar name .abort machine) = .ok (some value)

/-- The scalars of a machine, in order, and what becomes of each. -/
def results (machine : Machine) : List (String × Except Error Value) :=
  (machine.entries.filter Entry.isScalar).map fun entry =>
    (entry.name, given (valueOf entry machine))

theorem mem_results
    {machine : Machine}
    {name : String}
    {outcome : Except Error Value} :
    (name, outcome) ∈ machine.results ↔
      ∃ entry ∈ machine.entries,
        entry.isScalar = true ∧ entry.name = name ∧
          given (valueOf entry machine) = outcome := by
  simp only [results, List.mem_map, List.mem_filter, Prod.mk.injEq, and_assoc]

/-- The value of a scalar is that of its entry. -/
theorem given_scalar
    {machine : Machine}
    {entry : Entry}
    (found : machine.find? entry.name = some entry)
    (isScalar : entry.isScalar = true)
    (missing : Missing) :
    given (scalar entry.name missing machine) =
      (given (valueOf entry machine)).map some := by
  rw [← given_map]
  simp only [scalar, bind_get, found, isScalar, if_true]

theorem WellFormed.gives_iff
    {machine : Machine}
    (wellFormed : machine.WellFormed)
    {name : String}
    {value : Value} :
    machine.Gives name value ↔ (name, .ok value) ∈ machine.results := by
  constructor
  · intro gives
    unfold Gives at gives
    cases found : machine.find? name with
    | none =>
        simp only [scalar, bind_get, found] at gives
        cases gives
    | some entry =>
        obtain ⟨member, rfl⟩ := wellFormed.mem_of_find? found
        by_cases isScalar : entry.isScalar = true
        · rw [given_scalar found isScalar] at gives
          refine mem_results.mpr ⟨entry, member, isScalar, rfl, ?_⟩
          cases outcome : given (valueOf entry machine) with
          | ok result =>
              rw [outcome] at gives
              cases gives
              rfl
          | error error =>
              rw [outcome] at gives
              cases gives
        · simp only [scalar, bind_get, found, isScalar] at gives
          cases gives
  · intro isResult
    obtain ⟨entry, member, isScalar, rfl, outcome⟩ := mem_results.mp isResult
    rw [Gives, given_scalar (wellFormed.found entry member) isScalar, outcome]
    rfl

/-- The constants are written one below the other, each as it is on its own. -/
theorem Loaded.constants_eq
    {machine : Machine}
    (loaded : machine.Loaded) :
    machine.constants.1 = constantTexts machine.results := by
  have lines :
      ∀ scalars : List Entry,
        (∀ entry ∈ scalars, entry ∈ machine.entries.filter Entry.isScalar) →
        (machine.constantLines scalars).1 =
          scalars.map fun entry =>
            constantText entry.name (given (valueOf entry machine)) := by
    intro scalars
    induction scalars with
    | nil => exact fun _ => rfl
    | cons entry rest inductionHypothesis =>
        intro scalar
        obtain ⟨isEntry, restScalar⟩ := List.forall_mem_cons.mp scalar
        obtain ⟨member, isScalar⟩ := List.mem_filter.mp isEntry
        have untouched : machine.Untouched (valueOf entry) :=
          untouched_valueOf loaded.callDepth loaded.checked
            machine.config machine.stack
            (loaded.checked.globals entry member) isScalar
        have line :
            constantLine entry machine =
              (constantText entry.name (given (valueOf entry machine)),
                machine) := by
          unfold Untouched at untouched
          unfold constantLine
          cases outcome : valueOf entry machine with
          | ok value next =>
              rw [outcome] at untouched
              obtain rfl : next = machine := untouched
              rfl
          | error error next =>
              rw [outcome] at untouched
              obtain rfl : next = machine := untouched
              rfl
        simp only [constantLines, line, inductionHypothesis restScalar,
          List.map_cons]
  have all :=
    lines (machine.entries.filter Entry.isScalar) fun _ member => member
  simp only [constants, all, constantTexts, results, List.map_map]
  rfl

/-- What a finite evaluation reaches is finite. -/
theorem finite_of_reached
    {action : Eval Unit}
    (finitary : Eval.Finitary action)
    {run : Run}
    (finite : run.stack.Finite)
    {context : Failure → Failure}
    {value : Value}
    (reaches : reached context (action run) = .ok value) :
    value.Finite := by
  cases outcome : action run with
  | error failure next =>
      rw [outcome] at reaches
      cases reaches
  | ok _ next =>
      obtain ⟨nextFinite, -⟩ := finitary run () next finite outcome
      rw [outcome] at reaches
      obtain ⟨⟨cells⟩, steps, callDepth⟩ := next
      cases cells with
      | nil => cases reaches
      | cons cell below =>
          have cellFinite : cell.Finite := nextFinite cell List.mem_cons_self
          cases cell with
          | literal result =>
              cases reaches
              exact cellFinite
          | «variable» | lookup | call | element | op => cases reaches

/-- The value of a scalar is what its program leaves on an empty stack. -/
theorem Loaded.given_valueOf_scalar
    {machine : Machine}
    (loaded : machine.Loaded)
    {entry : Entry}
    (isScalar : entry.isScalar = true) :
    given (valueOf entry machine) =
      reached id
        (Eval.apply machine.config (Eval.runTop machine.config)
          machine.scopes entry ⟨Stack.empty, 0, 0⟩) := by
  have counted : ([] : List Value).length = entry.operandCount :=
    (Entry.operandCount_of_isScalar isScalar).symm
  rw [← loaded.stack]
  exact given_valueOf machine.config machine.stack counted

/-- Scalars have finite values where the tables of the machine do. -/
theorem Loaded.finite_of_gives
    {machine : Machine}
    (loaded : machine.Loaded)
    (tables : machine.TablesFinite machine.config.extrapolation)
    {name : String}
    {value : Value}
    (gives : machine.Gives name value) :
    value.Finite := by
  obtain ⟨entry, member, isScalar, rfl, outcome⟩ :=
    mem_results.mp (loaded.wellFormed.gives_iff.mp gives)
  have finite := loaded.scopesFinite tables
  have finitary :=
    Eval.finitary_apply
      (Eval.runProgram_finitary machine.config machine.config.maxCallDepth)
      finite (finite.globals entry member)
  have startsFinite : (Run.mk Stack.empty 0 0).stack.Finite := by
    intro cell member
    cases member
  exact finite_of_reached finitary startsFinite
    ((loaded.given_valueOf_scalar isScalar).symm.trans outcome)

/-! Loading the assignments that have been written. -/

/-- A scalar that is a literal has the value of the literal. -/
theorem Loaded.gives_of_push
    {machine : Machine}
    (loaded : machine.Loaded)
    (allowed : machine.config.AllowsStep)
    {name : String}
    {value : Value}
    (member : ⟨name, .scalar (Code.push value)⟩ ∈ machine.entries) :
    machine.Gives name value := by
  have runs :
      Eval.apply machine.config (Eval.runTop machine.config) machine.scopes
          ⟨name, .scalar (Code.push value)⟩ ⟨Stack.empty, 0, 0⟩ =
        .ok () ⟨⟨[.literal value]⟩, 1, 0⟩ := by
    simp only [Eval.apply, Eval.applyDefinition, Eval.inside,
      runTop_push allowed machine.scopes value]
  rw [Gives, given_scalar (loaded.wellFormed.found _ member) rfl,
    loaded.given_valueOf_scalar rfl, runs]
  rfl

/-- The scalars of a machine are among its entries, in their order. -/
theorem names_results (machine : Machine) :
    (machine.results.map Prod.fst).Sublist machine.names := by
  have same :
      machine.results.map Prod.fst =
        (machine.entries.filter Entry.isScalar).map Entry.name := by
    rw [results, List.map_map]
    rfl
  rw [same]
  exact List.filter_sublist.map Entry.name

theorem Loaded.results_named
    {machine : Machine}
    (loaded : machine.Loaded) :
    ∀ result ∈ machine.results, Lexeme.IsName result.1 := by
  rintro ⟨name, outcome⟩ isResult
  obtain ⟨entry, member, -, rfl, -⟩ := mem_results.mp isResult
  exact loaded.named entry member

/-- Constants that can be written are loaded as the literals of their values. -/
theorem Loaded.load_constants
    {machine : Machine}
    (loaded : machine.Loaded)
    (allowed : machine.config.AllowsStep)
    (writable : ∀ name value, machine.Gives name value → value.Writable)
    (label : String) :
    Machine.load .replace label machine.constants.1 (ofConfig machine.config) =
      .ok () { ofConfig machine.config with
        scopes := ⟨⟨constantEntries machine.results⟩, []⟩ } := by
  have writableResults :
      ∀ result ∈ machine.results, ∀ value,
        result.2 = .ok value → value.Writable := by
    rintro ⟨name, -⟩ member value rfl
    exact writable name value (loaded.wellFormed.gives_iff.mpr member)
  obtain ⟨program, parsed, restate⟩ :=
    parse_constantTexts label
      (Signatures.ofEntries (constantEntries machine.results))
      loaded.results_named writableResults
  rw [loaded.constants_eq]
  refine load_of_restates allowed parsed restate ?distinct ?notBuiltin
    ?shaped ?small
  case distinct =>
    have ordered :=
      (names_constantEntries machine.results).trans machine.names_results
    exact loaded.wellFormed.distinct.sublist ordered
  case notBuiltin =>
    intro entry member
    obtain ⟨name, value, isResult, rfl⟩ := mem_constantEntries.mp member
    obtain ⟨original, isEntry, -, rfl, -⟩ := mem_results.mp isResult
    exact (loaded.wellFormed.entries original isEntry).notBuiltin
  case shaped =>
    intro entry member
    obtain ⟨name, value, -, rfl⟩ := mem_constantEntries.mp member
    trivial
  case small =>
    intro entry member grid isArray
    obtain ⟨name, value, -, rfl⟩ := mem_constantEntries.mp member
    cases isArray

/--
A machine that has, of the scalars of another one, exactly those with a value,
and gives them the same values.
-/
structure RestoresConstants (machine again : Machine) : Prop where
  values : ∀ name value, machine.Gives name value → again.Gives name value
  names : ∀ name ∈ again.names, ∃ value, machine.Gives name value

/-- Constants that can be written are restored. -/
theorem Loaded.restores
    {machine : Machine}
    (loaded : machine.Loaded)
    (allowed : machine.config.AllowsStep)
    (writable : ∀ name value, machine.Gives name value → value.Writable)
    (label : String) :
    ∃ again,
      Machine.load .replace label machine.constants.1
        (ofConfig machine.config) =
          .ok () again ∧
        machine.RestoresConstants again := by
  have loads := loaded.load_constants allowed writable label
  have again := (Loaded.start machine.config).load loads
  refine ⟨_, loads, ?values, ?names⟩
  case values =>
    intro name value gives
    refine again.gives_of_push allowed ?_
    exact mem_constantEntries.mpr
      ⟨name, value, loaded.wellFormed.gives_iff.mp gives, rfl⟩
  case names =>
    intro name member
    obtain ⟨entry, isEntry, rfl⟩ := List.mem_map.mp member
    obtain ⟨name, value, isResult, rfl⟩ := mem_constantEntries.mp isEntry
    exact ⟨value, loaded.wellFormed.gives_iff.mpr isResult⟩

/--
Constants that are restored can be written: the smallest integer is refused by
the scanner, and no scalar of a machine without tables has a value that is not
finite.
-/
theorem Loaded.writable_of_restores
    {machine again : Machine}
    (loaded : machine.Loaded)
    {label : String}
    (loads :
      Machine.load .replace label machine.constants.1
        (ofConfig machine.config) =
        .ok () again)
    (restores : machine.RestoresConstants again) :
    ∀ name value, machine.Gives name value → value.Writable := by
  obtain ⟨program, signatures, parsed, loadedFrom⟩ := loadedFrom_of_load loads
  rw [loaded.constants_eq] at parsed
  obtain ⟨notSmallest, bind⟩ :=
    of_parse_constantTexts loaded.results_named parsed
  have scalars : ∀ entry ∈ again.entries, entry.isScalar = true := by
    refine loadedFrom.effects.preserve
      (fun bindings => ∀ entry ∈ bindings.entries, entry.isScalar = true) ?_
      nofun
    intro statement member before after effect scalars
    obtain ⟨name, tree, isScalar⟩ := bind statement member
    rw [isScalar] at effect
    cases effect with
    | scalar compiled => exact Bindings.forall_mem_insert rfl scalars
  intro name value gives
  cases value with
  | int n =>
      rintro rfl
      exact notSmallest _ (loaded.wellFormed.gives_iff.mp gives) rfl
  | double x =>
      have againLoaded := (Loaded.start machine.config).load loads
      refine againLoaded.finite_of_gives ?_
        (restores.values name (.double x) gives)
      intro entry member curve isCurve
      have isScalar := scalars entry member
      simp [Entry.isScalar, Entry.kind, isCurve] at isScalar
  | string | bool => trivial

/--
The constants of a loaded machine can be loaded under the same settings and are
restored by this, exactly when every scalar with a value has one that can be
written.  The smallest integer cannot, and neither can doubles that are not
finite, which tables give whose values differ by too much.
-/
theorem constants_read_back_iff
    {machine : Machine}
    (loaded : machine.Loaded)
    (depthAllowed : 1 ≤ machine.config.maxCallDepth)
    (stepsAllowed : ∀ most ∈ machine.config.maxSteps, 1 ≤ most)
    (label : String) :
    (∃ again,
        load .replace label machine.constants.1 (ofConfig machine.config) =
          .ok () again ∧
          machine.RestoresConstants again) ↔
      ∀ name value, machine.Gives name value → value.Writable := by
  constructor
  · rintro ⟨again, loads, restores⟩
    exact loaded.writable_of_restores loads restores
  · intro writable
    exact loaded.restores ⟨depthAllowed, stepsAllowed⟩ writable label

/--
Two numbers and a text are restored, and a scalar without a value is left out.
-/
theorem constants_read_back_numbers :
    ∃ machine again : Machine,
      load .replace "" "a = 2; b = \"x\"; c = 1 / 0; d = -a;" (ofConfig {}) =
        .ok () machine ∧
        load .replace "" machine.constants.1 (ofConfig {}) = .ok () again ∧
          machine.RestoresConstants again := by
  have loads : ∃ (machine : Machine) (error : Error),
      load .replace "" "a = 2; b = \"x\"; c = 1 / 0; d = -a;" (ofConfig {}) =
        .ok () machine ∧
        machine.config = {} ∧
          machine.results =
            [("a", .ok (.int 2)), ("b", .ok (.string "x")), ("c", .error error),
              ("d", .ok (.int (-2)))] := by
    refine ⟨{ ofConfig {} with
      scopes := ⟨⟨[
        ⟨"a", .scalar [.literal (.int 2)]⟩,
        ⟨"b", .scalar [.literal (.string "x")]⟩,
        ⟨"c", .scalar
          [.literal (.int 1), .literal (.int 0), .op (.binary .div)]⟩,
        ⟨"d", .scalar [.variable "a", .op .negate]⟩]⟩, []⟩ },
      .runtime ⟨.arithmetic .divisionByZero, ["c"]⟩, ?_, rfl, ?_⟩
    · decide +kernel
    · decide +kernel
  obtain ⟨machine, error, succeeds, config, results⟩ := loads
  have loaded : machine.Loaded := (Loaded.start {}).load succeeds
  have writable : ∀ name value, machine.Gives name value → value.Writable := by
    intro name value gives
    have member := loaded.wellFormed.gives_iff.mp gives
    rw [results] at member
    simp only [List.mem_cons, Prod.mk.injEq, Except.ok.injEq, reduceCtorEq,
      and_false, List.not_mem_nil, or_false, false_or] at member
    rcases member with ⟨-, rfl⟩ | ⟨-, rfl⟩ | ⟨-, rfl⟩ <;> decide
  have restored :=
    (constants_read_back_iff loaded (by simp [config]) (by simp [config])
      "").mpr writable
  rw [config] at restored
  obtain ⟨again, loadsAgain, restores⟩ := restored
  exact ⟨machine, again, succeeds, loadsAgain, restores⟩

/-- The smallest integer is written with digits that are not read. -/
theorem smallest_constant_lost :
    ∃ machine : Machine,
      load .replace "" "x = -9223372036854775807 - 1;" (ofConfig {}) =
        .ok () machine ∧
        machine.Gives "x" (.int Int64.minValue) ∧
          machine.constants.1 = "x = -9223372036854775808;\n" ∧
            ∀ again, load .replace "" machine.constants.1 (ofConfig {}) ≠
              .ok () again := by
  have loads : ∃ machine : Machine,
      load .replace "" "x = -9223372036854775807 - 1;" (ofConfig {}) =
        .ok () machine ∧
        machine.Gives "x" (.int Int64.minValue) ∧
          machine.constants.1 = "x = -9223372036854775808;\n" := by
    refine ⟨{ ofConfig {} with
      scopes := ⟨⟨[
        ⟨"x", .scalar
          [.literal (.int (-9223372036854775807)), .literal (.int 1),
            .op (.binary .sub)]⟩]⟩, []⟩ }, ?_, ?_, ?_⟩
    · decide +kernel
    · unfold Gives
      decide +kernel
    · decide +kernel
  obtain ⟨machine, succeeds, gives, text⟩ := loads
  refine ⟨machine, succeeds, gives, text, ?_⟩
  intro again succeedsAgain
  obtain ⟨program, signatures, parsed, -⟩ := loadedFrom_of_load succeedsAgain
  have isName : Lexeme.IsName "x" :=
    ⟨⟨_, _, rfl, by decide, List.all_eq_true.mp rfl⟩, by decide⟩
  have line :
      machine.constants.1 =
        constantText "x" (.ok (.int Int64.minValue)) ++ "\n" ++ "" := by
    rw [text]
    decide
  exact parse_smallest isName "" "" program (line ▸ parsed)

end Machine

end Formulary
