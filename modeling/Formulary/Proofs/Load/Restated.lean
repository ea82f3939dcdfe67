import Formulary.Proofs.Entry.Declaration
import Formulary.Proofs.Load.WellFormed

namespace Formulary

open Stateful

/-!
# Carrying out restated entries

A statement whose expressions compile to the programs, sizes and points of an
entry binds that entry and changes nothing else, as long as one cell may be
executed: sizes and coordinates are evaluated, and each is a single literal.
-/

/-- Settings under which a program of one cell can be executed. -/
structure Config.AllowsStep (config : Config) : Prop where
  depth : 1 ≤ config.maxCallDepth
  steps : ∀ most ∈ config.maxSteps, 1 ≤ most

/-- A machine between evaluations, with nothing on its stack. -/
structure Machine.Idle (machine : Machine) : Prop where
  allowed : machine.config.AllowsStep
  stack : machine.stack = Stack.empty
  callDepth : machine.callDepth = 0

namespace Machine

/-- A cell is counted when the limits allow it. -/
theorem tick_of_allowsStep
    {config : Config}
    (allowed : config.AllowsStep)
    (callDepth : Nat) :
    Eval.tick config ⟨Stack.empty, 0, callDepth⟩ =
      .ok () ⟨Stack.empty, 1, callDepth⟩ := by
  have shallow : ¬ config.maxStackSize < Stack.empty.depth := Nat.not_lt_zero _
  simp only [Eval.tick, bind_modify, bind_get]
  cases limit : config.maxSteps with
  | none => simp [shallow]
  | some most =>
      have enough : ¬ most < 1 := Nat.not_lt.mpr (allowed.steps most limit)
      simp [enough, shallow]

/-- The program of a literal leaves the literal. -/
theorem runTop_push
    {config : Config}
    (allowed : config.AllowsStep)
    (scopes : Scopes)
    (value : Value) :
    Eval.runTop config scopes none (Code.push value) ⟨Stack.empty, 0, 0⟩ =
      .ok () ⟨⟨[.literal value]⟩, 1, 0⟩ := by
  obtain ⟨levels, isDepth⟩ : ∃ levels, config.maxCallDepth = levels + 1 :=
    ⟨config.maxCallDepth - 1, by have depth := allowed.depth; omega⟩
  have executed (runner : Eval.Runner) :
      Eval.execCells config runner scopes none (Code.push value)
        ⟨Stack.empty, 0, 1⟩ =
        .ok () ⟨⟨[.literal value]⟩, 1, 1⟩ := by
    rw [Code.push, Eval.execCells, bind_of_ok (tick_of_allowsStep allowed 1)]
    rfl
  rw [Eval.runTop, isDepth, Eval.runProgram]
  simp only [Eval.nested, Nat.zero_add, executed, Nat.sub_self]

/-- A literal is evaluated to itself. -/
theorem evaluate_push
    {machine : Machine}
    (idle : machine.Idle)
    (value : Value) :
    evaluate (Code.push value) machine = .ok value machine := by
  obtain ⟨scopes, stack, config, printed, callDepth⟩ := machine
  obtain ⟨allowed, rfl, rfl⟩ := idle
  rw [evaluate]
  simp only [fresh, bind_of_ok (runTop_push allowed scopes value)]
  rfl

end Machine

namespace Load

section Constants

variable
  {signatures : Signatures}
  {machine : Machine}

theorem compile_of_expr
    {tree : Expr}
    {code : Code}
    (compiled : Compile.expr signatures [] tree = .ok code) :
    compile signatures tree machine = .ok code machine := by
  rw [compile, compiled]
  rfl

theorem compileEach_of_forall₂
    {elements : List Expr}
    {programs : List Code}
    (compiled :
      List.Forall₂
        (fun element code => Compile.expr signatures [] element = .ok code)
        elements programs) :
    compileEach signatures elements machine = .ok programs machine := by
  induction compiled with
  | nil => rfl
  | cons first rest inductionHypothesis =>
      rw [compileEach, bind_of_ok (compile_of_expr first),
        bind_of_ok inductionHypothesis]
      rfl

variable (idle : machine.Idle)
include idle

/-- A literal is a constant. -/
theorem constant_of_push
    {place : Constant}
    {tree : Expr}
    {value : Value}
    (compiled : Compile.expr signatures [] tree = .ok (Code.push value)) :
    constant signatures place tree machine = .ok value machine := by
  refine (bind_of_ok (compile_of_expr compiled)).trans ?_
  simp only [Machine.evaluate_push idle value]

theorem points_of_places
    {table : String}
    {index : Nat}
    {points : List Point}
    {pairs : List (Expr × Expr)}
    (placed : List.Forall₂ (Places signatures) points pairs) :
    Load.points signatures table index pairs machine = .ok points machine := by
  induction placed generalizing index with
  | nil => rfl
  | @cons point pair points pairs first rest inductionHypothesis =>
      have readX (place : Constant) :
          constantNumber signatures place pair.1 machine =
            .ok point.x machine := by
        rw [constantNumber, bind_of_ok (constant_of_push idle first.1)]
        rfl
      have readY (place : Constant) :
          constantNumber signatures place pair.2 machine =
            .ok point.y machine := by
        rw [constantNumber, bind_of_ok (constant_of_push idle first.2)]
        rfl
      rw [Load.points, bind_of_ok (readX _), bind_of_ok (readY _),
        bind_of_ok inductionHypothesis]
      rfl

theorem dimensions_of_sizes
    {array : String}
    {axis : Nat}
    {dims : List Nat}
    {sizes : List Expr}
    (sized : List.Forall₂ (Sizes signatures) dims sizes)
    (bounded : ∀ size ∈ dims, 1 ≤ size ∧ size < 2 ^ 63) :
    dimensions signatures array axis sizes machine = .ok dims machine := by
  induction sized generalizing axis with
  | nil => rfl
  | @cons size tree dims sizes first rest inductionHypothesis =>
      obtain ⟨positive, small⟩ := bounded size List.mem_cons_self
      have value : (Int64.ofNat size).toInt = size :=
        Int64.toInt_ofNat_of_lt small
      have readSize (place : Constant) :
          constantIndex signatures place tree machine =
            .ok (Int64.ofNat size) machine := by
        rw [constantIndex, bind_of_ok (constant_of_push idle first)]
        rfl
      have large : ¬ (Int64.ofNat size).toInt < 1 := by omega
      have others :
          dimensions signatures array (axis + 1) sizes machine =
            .ok dims machine :=
        inductionHypothesis fun other member =>
          bounded other (List.mem_cons_of_mem size member)
      rw [dimensions, bind_of_ok (readSize _), if_neg large, bind_of_ok others,
        value, Int.toNat_natCast]
      rfl

end Constants

end Load

namespace Grid

/-- Sizes whose product is a machine word are counted without refusal. -/
theorem checkedCapacity_of_prod_lt
    {dims : List Nat}
    (positive : ∀ size ∈ dims, 1 ≤ size)
    (bounded : dims.prod < wordSize) :
    checkedCapacity dims = some dims.prod := by
  have counted :
      ∀ (sizes : List Nat) (start : Nat), (∀ size ∈ sizes, 1 ≤ size) →
        start * sizes.prod < wordSize →
          sizes.foldlM
            (fun total size =>
              if total * size < wordSize then some (total * size) else none)
            start = some (start * sizes.prod) := by
    intro sizes
    induction sizes with
    | nil =>
        intro start _ _
        simp
    | cons size rest inductionHypothesis =>
        intro start positive small
        have restPositive : ∀ other ∈ rest, 1 ≤ other := fun other member =>
          positive other (List.mem_cons_of_mem size member)
        rw [List.prod_cons, ← Nat.mul_assoc] at small ⊢
        have restProduct : 0 < rest.prod :=
          List.prod_pos_iff_forall_pos_nat.mpr restPositive
        have fits : start * size < wordSize :=
          Nat.lt_of_le_of_lt (Nat.le_mul_of_pos_right _ restProduct) small
        simp only [List.foldlM_cons, fits, if_true]
        exact inductionHypothesis (start * size) restPositive small
  have all := counted dims 1 positive (by simpa using bounded)
  rw [Nat.one_mul] at all
  exact all

/-- A well-formed array can be declared with all its elements. -/
theorem WellFormed.sizeFault?
    {config : Config}
    {grid : Grid}
    (wellFormed : grid.WellFormed config) :
    Load.sizeFault? config grid.dims grid.elements.size = none := by
  have counted :=
    checkedCapacity_of_prod_lt wellFormed.positive wellFormed.bounded
  have limited : ¬ config.maxArrayElements < grid.dims.prod := by
    rw [← wellFormed.filled]
    exact Nat.not_lt.mpr wellFormed.limited
  have filled : ¬ grid.dims.prod < grid.elements.size := by
    rw [wellFormed.filled]
    exact Nat.lt_irrefl _
  simp only [Load.sizeFault?, counted, limited, filled, if_false]

/-- An array of as many elements as its sizes say. -/
theorem ofElements_of_length
    {dims : List Nat}
    {programs : List Code}
    (filled : programs.length = dims.prod) :
    ofElements dims programs = ⟨dims, programs.toArray⟩ := by
  rw [ofElements, capacity_eq_prod, ← filled]
  simp

end Grid

namespace Curve

/-- The points of a well-formed table are accepted. -/
theorem WellFormed.ofPoints
    {curve : Curve}
    (wellFormed : curve.WellFormed) :
    Curve.ofPoints curve.points = .ok curve := by
  have noStep :
      ∀ (points : List Point) (index : Nat),
        (points.Pairwise fun first second => first.x.lt second.x) →
          stepFault? index points = none := by
    intro points
    induction points with
    | nil =>
        intro index _
        rfl
    | cons first rest inductionHypothesis =>
        intro index increasing
        cases rest with
        | nil => rfl
        | cons second others =>
            obtain ⟨below, restIncreasing⟩ := List.pairwise_cons.mp increasing
            have notAbove : ¬ second.x.le first.x = true := by
              have less := below second List.mem_cons_self
              simp only [Double.lt, Double.le, Bool.and_eq_true,
                decide_eq_true_eq] at less ⊢
              omega
            rw [stepFault?, if_neg notAbove]
            exact inductionHypothesis (index + 1) restIncreasing
  have someFinite :
      (curve.points.findIdx? fun point => !isFinitePoint point) = none := by
    rw [List.findIdx?_eq_none_iff]
    intro point member
    simp [isFinitePoint, wellFormed.finite point member]
  have faultless : fault? curve.points = none := by
    rw [fault?, if_neg (by simpa using wellFormed.nonempty), someFinite]
    exact noStep curve.points 0 wellFormed.increasing
  rw [Curve.ofPoints, faultless]

end Curve

/-- A well-formed definition is well-formed when it is read back. -/
theorem Definition.WellFormed.reread
    {config : Config}
    {definition : Definition}
    (wellFormed : definition.WellFormed config) :
    definition.reread.WellFormed config := by
  cases definition with
  | scalar | curve | function => exact wellFormed
  | array grid =>
      have shaped : grid.WellFormed config := wellFormed
      have reread :
          Grid.WellFormed config ⟨grid.dims, grid.elements.map Code.reread⟩ :=
        { ranked := shaped.ranked
          positive := shaped.positive
          bounded := shaped.bounded
          filled := by simpa using shaped.filled
          limited := by simpa using shaped.limited }
      exact reread

namespace Compile

/-- A list without repetition is searched in vain for one. -/
theorem firstRepeat?_of_nodup
    {seen names : List String}
    (distinct : (seen ++ names).Nodup) :
    firstRepeat? seen names = none := by
  induction names generalizing seen with
  | nil => rfl
  | cons name rest inductionHypothesis =>
      have new : ¬ seen.contains name = true := by
        rw [List.nodup_append] at distinct
        intro known
        exact distinct.2.2 name (by simpa using known) name
          List.mem_cons_self rfl
      rw [firstRepeat?, if_neg new]
      exact inductionHypothesis (by simpa using distinct)

/-- Restating an entry declares its name with its signature. -/
theorem declareStatement_of_restates
    {signatures known : Signatures}
    {config : Config}
    {entry : Entry}
    {statement : Statement}
    (restates : Restates signatures entry statement.action)
    (notBuiltin : Builtin.ofName? entry.name = none)
    (shaped : entry.definition.WellFormed config) :
    declareStatement known statement =
      .ok (known.declare entry.name entry.signature) := by
  obtain ⟨position, action⟩ := statement
  have free : ¬ (Builtin.ofName? entry.name).isSome = true := by
    simp [notBuiltin]
  cases restates with
  | scalar compiled =>
      simp only [declareStatement, declaration?, declarationFault?]
      rw [if_neg free]
      rfl
  | @function name params body code compiled =>
      have distinct : firstRepeat? [] params = none :=
        firstRepeat?_of_nodup shaped.2
      simp only [declareStatement, declaration?, declarationFault?, distinct,
        Option.map_none]
      rw [if_neg free]
      rfl
  | @array name dims sizes elements programs sized compiled =>
      have grid : Grid.WellFormed config ⟨dims, programs.toArray⟩ := shaped
      have few : ¬ Grid.maxRank < sizes.length := by
        rw [← sized.length_eq]
        exact Nat.not_lt.mpr grid.ranked.2
      simp only [declareStatement, declaration?, declarationFault?, if_neg few]
      rw [if_neg free, ← sized.length_eq]
      rfl
  | curve placed =>
      simp only [declareStatement, declaration?, declarationFault?]
      rw [if_neg free]
      rfl

end Compile

namespace Load

/-- Carrying out a statement that restates an entry binds the entry. -/
theorem statement_of_restates
    {signatures : Signatures}
    {machine : Machine}
    (idle : machine.Idle)
    {entry : Entry}
    {source : Statement}
    (restates : Restates signatures entry source.action)
    (shaped : entry.definition.WellFormed machine.config)
    (small : ∀ grid, entry.definition = .array grid → ∀ size ∈ grid.dims,
      size < 2 ^ 63) :
    statement signatures source machine =
      .ok () { machine with scopes := machine.scopes.define entry } := by
  obtain ⟨position, action⟩ := source
  cases restates with
  | scalar compiled => exact (bind_of_ok (compile_of_expr compiled)).trans rfl
  | @function name params body code compiled =>
      have compiles :
          (ofExcept (Compile.expr signatures params body) : Build Code)
            machine =
            .ok code machine := by
        rw [compiled]
        rfl
      exact (bind_of_ok compiles).trans rfl
  | @array name dims sizes elements programs sized compiled =>
      have grid : Grid.WellFormed machine.config ⟨dims, programs.toArray⟩ :=
        shaped
      have bounded : ∀ size ∈ dims, 1 ≤ size ∧ size < 2 ^ 63 :=
        fun size member =>
          ⟨grid.positive size member, small _ rfl size member⟩
      have filled : programs.length = dims.prod := by simpa using grid.filled
      have fits : sizeFault? machine.config dims elements.length = none := by
        rw [compiled.length_eq]
        simpa using grid.sizeFault?
      refine (bind_of_ok (dimensions_of_sizes idle sized bounded)).trans ?_
      simp only [bind_get, fits]
      refine (bind_of_ok (compileEach_of_forall₂ compiled)).trans ?_
      rw [Grid.ofElements_of_length filled]
      rfl
  | @curve name points pairs placed =>
      have table : Curve.WellFormed ⟨points⟩ := shaped
      refine (bind_of_ok (points_of_places idle placed)).trans ?_
      simp only [table.ofPoints]
      rfl

/-- Carrying out statements that restate entries binds them in order. -/
theorem statements_of_restates
    {signatures : Signatures}
    {machine : Machine}
    (idle : machine.Idle)
    {entries : List Entry}
    {program : List Statement}
    (restate :
      List.Forall₂ (Restates signatures) entries (program.map Statement.action))
    (shaped : ∀ entry ∈ entries, entry.definition.WellFormed machine.config)
    (small :
      ∀ entry ∈ entries, ∀ grid, entry.definition = .array grid →
        ∀ size ∈ grid.dims, size < 2 ^ 63) :
    statements signatures program machine =
      .ok () { machine with
        scopes :=
          ⟨entries.foldl Bindings.insert machine.scopes.globals,
            machine.scopes.frames⟩ } := by
  induction program generalizing entries machine with
  | nil =>
      cases restate
      rfl
  | cons source rest inductionHypothesis =>
      cases restate with
      | @cons entry _ entries _ first others =>
          have carriedOut :=
            statement_of_restates idle first (shaped entry List.mem_cons_self)
              (small entry List.mem_cons_self)
          have stillIdle :
              Machine.Idle
                { machine with scopes := machine.scopes.define entry } :=
            ⟨idle.allowed, idle.stack, idle.callDepth⟩
          refine (bind_of_ok carriedOut).trans ?_
          exact inductionHypothesis stillIdle others
            (fun other member =>
              shaped other (List.mem_cons_of_mem entry member))
            (fun other member =>
              small other (List.mem_cons_of_mem entry member))

end Load

namespace Compile

/-- Restating entries declares their signatures in order. -/
theorem declareAll_of_restates
    {signatures known : Signatures}
    {config : Config}
    {entries : List Entry}
    {program : List Statement}
    (restate :
      List.Forall₂ (Restates signatures) entries (program.map Statement.action))
    (notBuiltin : ∀ entry ∈ entries, Builtin.ofName? entry.name = none)
    (shaped : ∀ entry ∈ entries, entry.definition.WellFormed config) :
    declareAll known program =
      .ok (entries.foldl (fun known entry =>
        known.declare entry.name entry.signature) known) := by
  induction program generalizing entries known with
  | nil =>
      cases restate
      rfl
  | cons source rest inductionHypothesis =>
      cases restate with
      | @cons entry _ entries _ first others =>
          have declared :
              declareStatement known source =
                .ok (known.declare entry.name entry.signature) :=
            declareStatement_of_restates
              first (notBuiltin entry List.mem_cons_self)
              (shaped entry List.mem_cons_self)
          rw [declareAll, List.foldlM_cons, declared, except_bind_ok,
            List.foldl_cons]
          exact inductionHypothesis others
            (fun other member =>
              notBuiltin other (List.mem_cons_of_mem entry member))
            (fun other member =>
              shaped other (List.mem_cons_of_mem entry member))

end Compile

end Formulary
