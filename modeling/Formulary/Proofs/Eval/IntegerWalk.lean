import Formulary.Proofs.Compile.Balanced
import Formulary.Proofs.Eval.IntegerFormula
import Formulary.Proofs.Eval.Simulation

namespace Formulary

open Stateful

/-!
# Walking over integer formulas

Walking over a tree that denotes an integer formula gives its value if it fits,
and an arithmetic fault if it does not, unless a limit ends the walk before.
The argument follows the formula: what the operands end with is passed on by a
rule for two walks in a row, and each operation is exact on words.

The program of such a tree refers to no name, so it does the same in all scopes.
-/

theorem Config.Exceeds.mono
    {config : Config}
    {levels steps depth moreLevels moreSteps moreDepth : Nat}
    {limit : Limit}
    (exceeds : config.Exceeds levels steps depth limit)
    (levelsGrow : levels ≤ moreLevels)
    (stepsGrow : steps ≤ moreSteps)
    (depthGrows : depth ≤ moreDepth) :
    config.Exceeds moreLevels moreSteps moreDepth limit := by
  cases limit with
  | callDepth most => exact ⟨exceeds.1, exceeds.2.trans_le levelsGrow⟩
  | steps most => exact ⟨exceeds.1, exceeds.2.trans_le stepsGrow⟩
  | stackSize most => exact ⟨exceeds.1, exceeds.2.trans_le depthGrows⟩

/-- What goes too high on a way of two parts goes too high on one of them. -/
theorem Config.Exceeds.either
    {config : Config}
    {levels steps later depth other : Nat}
    {limit : Limit}
    (exceeds : config.Exceeds levels later (max depth other) limit) :
    config.Exceeds levels steps depth limit ∨
      config.Exceeds levels later other limit := by
  cases limit with
  | callDepth most => exact .inr exceeds
  | steps most => exact .inr exceeds
  | stackSize most =>
      rcases lt_max_iff.mp exceeds.2 with inFirst | inSecond
      · exact .inl ⟨exceeds.1, inFirst⟩
      · exact .inr ⟨exceeds.1, inSecond⟩

theorem Config.not_exceeds_of_exceeded?
    {config : Config}
    {steps depth : Nat}
    (allowed : config.exceeded? steps depth = none)
    (limit : Limit) :
    ¬ config.Exceeds 0 steps depth limit := by
  obtain ⟨inSteps, inStack⟩ := exceeded?_eq_none allowed
  intro exceeds
  cases limit with
  | callDepth most => exact Nat.not_lt_zero most exceeds.2
  | steps most => exact absurd exceeds.2 (inSteps most exceeds.1).not_gt
  | stackSize most =>
      obtain ⟨rfl, full⟩ := exceeds
      exact absurd full inStack.not_gt

theorem Config.exceeds_of_exceeded?
    {config : Config}
    {steps depth : Nat}
    {limit : Limit}
    (exceeded : config.exceeded? steps depth = some limit) :
    config.Exceeds 0 steps depth limit := by
  unfold exceeded? at exceeded
  rw [Option.orElse_eq_orElse, Option.orElse_eq_or,
    Option.or_eq_some_iff] at exceeded
  rcases exceeded with late | ⟨-, full⟩
  · split at late
    · rename_i most limited
      split at late <;> cases late
      exact ⟨limited, ‹_›⟩
    · cases late
  · split at full <;> cases full
    exact ⟨rfl, ‹_›⟩

namespace Walk

/-- A node is counted, or a limit does not allow it. -/
theorem count_cases
    (config : Config)
    (depth steps : Nat) :
    (count config depth steps = .ok () (steps + 1) ∧
      ∀ limit, ¬ config.Exceeds 0 (steps + 1) depth limit) ∨
    ∃ limit, count config depth steps =
        .error (Failure.ofFault (.nonTermination limit)) (steps + 1) ∧
      config.Exceeds 0 (steps + 1) depth limit := by
  unfold count
  cases outcome : config.exceeded? (steps + 1) depth with
  | none => exact .inl ⟨rfl, Config.not_exceeds_of_exceeded? outcome⟩
  | some limit => exact .inr ⟨limit, rfl, Config.exceeds_of_exceeded? outcome⟩

end Walk

/-- A program that refers to no name. -/
def Code.Closed (code : Code) : Prop :=
  ∀ cell ∈ code, cell.reference? = none

namespace Code.Closed

theorem push (value : Value) : (Code.push value).Closed := by
  simp [Closed, Code.push, Cell.reference?]

theorem append
    {code other : Code}
    (closed : code.Closed)
    (otherClosed : other.Closed) :
    (code ++ other).Closed :=
  List.forall_mem_append.mpr ⟨closed, otherClosed⟩

theorem concat
    {code : Code}
    (closed : code.Closed)
    (operation : Op) :
    Code.Closed (code ++ [.op operation]) :=
  closed.append (by simp [Closed, Cell.reference?])

end Code.Closed

namespace Eval

/-- Without names, all scopes are the same. -/
theorem execCells_of_closed
    {code : Code}
    (closed : code.Closed)
    (config : Config)
    (runner other : Runner)
    (scopes otherScopes : Scopes)
    (frame otherFrame : Option Nat) :
    execCells config runner scopes frame code =
      execCells config other otherScopes otherFrame code := by
  induction code with
  | nil => rfl
  | cons cell rest inductionHypothesis =>
      obtain ⟨here, later⟩ := List.forall_mem_cons.mp closed
      have same :
          execCell config runner scopes frame cell =
            execCell config other otherScopes otherFrame cell := by
        cases cell <;> first | rfl | cases here
      simp only [execCells, same, inductionHypothesis later]

@[inherit_doc execCells_of_closed]
theorem runProgram_of_closed
    {code : Code}
    (closed : code.Closed)
    (config : Config)
    (levels : Nat)
    (scopes otherScopes : Scopes)
    (frame otherFrame : Option Nat) :
    runProgram config levels scopes frame code =
      runProgram config levels otherScopes otherFrame code := by
  cases levels with
  | zero => rfl
  | succ levels =>
      exact congrArg nested
        (execCells_of_closed closed config _ _ scopes otherScopes
          frame otherFrame)

end Eval

namespace IntegerFormula

/--
How a walk ends: with the value that it should have, with an arithmetic fault,
or because of a limit that does not allow the steps and operands it needs.
-/
inductive Ends
    (config : Config)
    (levels steps depth : Nat)
    (fits : Prop)
    (n : Int) :
    EStateM.Result Failure Nat Value → Prop where
  | value
      {word : Int64}
      (holds : fits)
      (exact : word.toInt = n)
      (allowed : ∀ limit, ¬ config.Exceeds levels steps depth limit) :
      Ends config levels steps depth fits n (.ok (.int word) steps)
  | fault
      {fault : ArithmeticFault}
      {later : Nat}
      (fails : ¬ fits) :
      Ends config levels steps depth fits n
        (.error (Failure.ofFault (.arithmetic fault)) later)
  | limited
      {limit : Limit}
      {later : Nat}
      (exceeds : config.Exceeds levels steps depth limit) :
      Ends config levels steps depth fits n
        (.error (Failure.ofFault (.nonTermination limit)) later)

namespace Ends

variable {config : Config}

/-- A node that is counted before its operation gives something exact. -/
theorem node
    {start depth : Nat}
    {fits : Prop}
    {n : Int}
    {result : Except Fault Value}
    (exact : Exact fits n result) :
    Ends config 0 (start + 1) depth fits n
      ((Walk.count config depth >>= fun _ => Walk.ofExcept result) start) := by
  rcases Walk.count_cases config depth start with
      ⟨counted, allowed⟩ | ⟨limit, counted, exceeds⟩
  · rw [bind_of_ok counted]
    cases exact with
    | value holds exact => exact .value holds exact allowed
    | fault fails => exact .fault fails
  · rw [bind_of_error counted]
    exact .limited exceeds

/-- A walk that goes on with the value of another one. -/
theorem bind
    {levels start steps later depth other : Nat}
    {fits bothFit : Prop}
    {n m : Int}
    {walk : Walk Value}
    {rest : Value → Walk Value}
    (first : Ends config levels steps depth fits n (walk start))
    (second :
      fits → ∀ word : Int64, word.toInt = n →
        Ends config levels later other bothFit m (rest (.int word) steps))
    (forward : steps ≤ later)
    (needed : bothFit → fits) :
    Ends config levels later (max depth other) bothFit m
      ((walk >>= rest) start) := by
  generalize outcome : walk start = result at first
  cases first with
  | @value word holds exact allowed =>
      rw [bind_of_ok outcome]
      have ended := second holds word exact
      generalize rest (.int word) steps = result at ended ⊢
      cases ended with
      | value bothHold restExact restAllowed =>
          refine .value bothHold restExact fun limit exceeds => ?_
          exact exceeds.either.elim (allowed limit) (restAllowed limit)
      | fault fails => exact .fault fails
      | limited exceeds =>
          exact .limited (exceeds.mono le_rfl le_rfl (le_max_right depth other))
  | fault fails =>
      rw [bind_of_error outcome]
      exact .fault (mt needed fails)
  | limited exceeds =>
      rw [bind_of_error outcome]
      exact .limited (exceeds.mono le_rfl forward (le_max_left depth other))

/-- An operation on the value of an operand. -/
theorem unary
    (op : Unary)
    {operand : IntegerFormula}
    {start depth : Nat}
    {walk : Walk Value}
    (ends :
      Ends config 0 (start + operand.steps) (depth + operand.peak)
        operand.Fits operand.value (walk start)) :
    Ends config 0 (start + (operand.steps + 1)) (depth + max operand.peak 1)
      (unary op operand).Fits (unary op operand).value
      ((walk >>= fun value => Walk.count config (depth + 1) >>= fun _ =>
        Walk.ofExcept (Walk.operate op.operation [value])) start) := by
  rw [← Nat.add_max_add_left]
  refine ends.bind (fun fits word exact => .node ?_) (Nat.le_succ _) And.left
  have computed := op.exact word
  rw [exact] at computed
  exact computed.congr ⟨fun valueFits => ⟨fits, valueFits⟩, And.right⟩

/-- An operation on the values of two operands. -/
theorem binary
    (op : Binary)
    {left right : IntegerFormula}
    {start depth : Nat}
    {walk other : Walk Value}
    (leftEnds :
      Ends config 0 (start + left.steps) (depth + left.peak) left.Fits
        left.value (walk start))
    (rightEnds :
      Ends config 0 (start + left.steps + right.steps)
        (depth + 1 + right.peak) right.Fits
        right.value (other (start + left.steps))) :
    Ends config 0 (start + (binary op left right).steps)
      (depth + (binary op left right).peak)
      (binary op left right).Fits (binary op left right).value
      ((walk >>= fun a => other >>= fun b =>
        Walk.count config (depth + 2) >>= fun _ =>
          Walk.ofExcept (Walk.operate op.operation [a, b])) start) := by
  simp only [steps, peak, ← Nat.add_max_add_left, ← Nat.add_assoc]
  refine leftEnds.bind (fun leftFits a leftExact => ?_) (by omega) And.left
  refine rightEnds.bind (fun rightFits b rightExact => .node ?_) (Nat.le_succ _)
    fun bothFit => bothFit.2.1
  have computed := op.exact a b
  rw [leftExact, rightExact] at computed
  exact computed.congr
    ⟨fun fits => ⟨leftFits, rightFits, fits⟩, fun fits => fits.2.2⟩

/-- A walk one level down, which must be there. -/
theorem nested
    {steps depth : Nat}
    {fits : Prop}
    {n : Int}
    {result : EStateM.Result Failure Nat Value}
    (isNested : 0 < config.maxCallDepth)
    (ends : Ends config 0 steps depth fits n result) :
    Ends config 1 steps depth fits n result := by
  cases ends with
  | value holds exact allowed =>
      refine .value holds exact fun limit exceeds => ?_
      cases limit with
      | callDepth most =>
          obtain ⟨rfl, less⟩ := exceeds
          omega
      | steps most => exact allowed (.steps most) exceeds
      | stackSize most => exact allowed (.stackSize most) exceeds
  | fault fails => exact .fault fails
  | limited exceeds =>
      exact .limited (exceeds.mono (Nat.zero_le 1) le_rfl le_rfl)

end Ends

/-- No built-in function is a sign. -/
theorem Unary.ne_negate_of_computes
    {builtin : Builtin}
    (op : Unary)
    (computes : Op.ofBuiltin builtin = op.operation) :
    op ≠ .negate := by
  rintro rfl
  revert computes
  cases builtin <;> decide

/-- No operation on two integers is written as a power. -/
theorem Binary.not_square
    {symbol : BinaryOp}
    (op : Binary)
    (computes : Op.binary symbol = op.operation)
    (exponent : Expr) :
    ¬ (symbol = .pow ∧ Compile.isTwo exponent) := by
  rintro ⟨rfl, -⟩
  cases op <;> cases computes

/-- The arguments that a built-in function has for an operation. -/
theorem Unary.arity_of_computes
    {builtin : Builtin}
    {op : Unary}
    (computes : Op.ofBuiltin builtin = op.operation) :
    builtin.arity = 1 := by
  rw [← Compile.arity_ofBuiltin, computes]
  cases op <;> rfl

@[inherit_doc Unary.arity_of_computes]
theorem Binary.arity_of_computes
    {builtin : Builtin}
    {op : Binary}
    (computes : Op.ofBuiltin builtin = op.operation) :
    builtin.arity = 2 := by
  rw [← Compile.arity_ofBuiltin, computes]
  cases op <;> rfl

namespace Denotes

theorem isNumber_eq
    {tree : Expr}
    {formula : IntegerFormula}
    (denotes : Denotes tree formula) :
    Walk.isNumber tree = formula.isLiteral := by
  cases denotes <;> rfl

/-- A number is a literal. -/
theorem eq_literal
    {tree : Expr}
    {formula : IntegerFormula}
    (denotes : Denotes tree formula)
    (isLiteral : formula.isLiteral = true) :
    ∃ position word n,
      tree = .literal position (.int word) ∧ formula = .literal n ∧
        word.toInt = n := by
  cases denotes with
  | literal same => exact ⟨_, _, _, rfl, rfl, same⟩
  | negate | square | call₁ | operator | call₂ => cases isLiteral

section Walks

variable
  (config : Config)
  (enter : Walk.Enter)
  (context : Context)
  (frame : Option Nat)
  (signatures : Signatures)
  {tree : Expr}
  {formula : IntegerFormula}
  (denotes : Denotes tree formula)
include denotes

/-- Walking over a tree ends as its formula says. -/
theorem ends
    (depth start : Nat) :
    Ends config 0 (start + formula.steps) (depth + formula.peak)
      formula.Fits formula.value
      (Walk.walk config enter context frame signatures depth tree start) := by
  induction denotes generalizing depth start with
  | @literal position word n same =>
      have exact := Exact.word word
      rw [same] at exact
      exact .node exact
  | @negate position tree operand denotes inductionHypothesis =>
      simp only [Walk.walk, denotes.isNumber_eq, steps, peak, true_and]
      cases isLiteral : operand.isLiteral with
      | true =>
          -- The sign belongs to the literal: there
          -- is one node, which is the literal's.
          obtain ⟨place, word, n, rfl, rfl, same⟩ :=
            denotes.eq_literal isLiteral
          have exact := Unary.exact .negate word
          rw [same] at exact
          have literalFits : FitsWord n := same ▸ fitsWord_toInt word
          simp only [Walk.walk, bind_assoc, pure_bind, if_true]
          exact .node (exact.congr ⟨fun fits => ⟨literalFits, fits⟩, And.right⟩)
      | false =>
          simp only [Bool.false_eq_true, if_false]
          exact (inductionHypothesis depth start).unary .negate
  | square denotes inductionHypothesis =>
      exact (inductionHypothesis depth start).unary .square
  | @call₁ position builtin op tree operand computes denotes
        inductionHypothesis =>
      have notSign : ¬ (op = .negate ∧ operand.isLiteral = true) :=
        fun both => op.ne_negate_of_computes computes both.1
      simp only [Walk.walk, Walk.walkAll, Builtin.ofName?_name, bind_assoc,
        pure_bind, computes, steps, peak, if_neg notSign]
      exact (inductionHypothesis depth start).unary op
  | @operator position symbol op leftTree rightTree left right computes _ _
        leftEnds rightEnds =>
      have ended := (leftEnds depth start).binary op
        (rightEnds (depth + 1) (start + left.steps))
      have notPower := op.not_square computes rightTree
      simp only [Walk.walk, if_neg notPower, computes]
      exact ended
  | @call₂ position builtin op leftTree rightTree left right computes _ _
        leftEnds rightEnds =>
      have ended := (leftEnds depth start).binary op
        (rightEnds (depth + 1) (start + left.steps))
      simp only [Walk.walk, Walk.walkAll, Builtin.ofName?_name, bind_assoc,
        pure_bind, computes, List.length_cons, List.length_nil]
      exact ended

/--
A tree that is evaluated with all levels of nesting ends as its formula says.
-/
theorem formula_ends
    (depth : Nat) :
    Ends config 1 formula.steps (depth + formula.peak)
      formula.Fits formula.value
      (Walk.formula config config.maxCallDepth context frame ⟨signatures, tree⟩
        depth 0) := by
  cases deepest : config.maxCallDepth with
  | zero =>
      have exceeds :
          config.Exceeds 1 formula.steps (depth + formula.peak)
            (.callDepth config.maxCallDepth) :=
        ⟨rfl, by omega⟩
      exact .limited exceeds
  | succ levels =>
      have ends := denotes.ends config (Walk.formula config levels) context
        frame signatures depth 0
      rw [Nat.zero_add] at ends
      exact ends.nested (by omega)

end Walks

/--
A tree compiles under all signatures, to a program that refers to no name.
-/
theorem emits
    (signatures : Signatures)
    {tree : Expr}
    {formula : IntegerFormula}
    (denotes : Denotes tree formula) :
    ∃ code, Compile.emit signatures [] tree = .ok code ∧ code.Closed := by
  induction denotes with
  | literal same => exact ⟨_, rfl, .push _⟩
  | @negate position tree operand denotes inductionHypothesis =>
      obtain ⟨code, emitted, closed⟩ := inductionHypothesis
      simp only [Compile.emit]
      cases Compile.negatedLiteral? tree with
      | some folded => exact ⟨_, rfl, .push folded⟩
      | none =>
          exact ⟨_, by rw [emitted, except_bind_ok]; rfl, closed.concat .negate⟩
  | square denotes inductionHypothesis =>
      obtain ⟨code, emitted, closed⟩ := inductionHypothesis
      simp only [Compile.emit]
      exact ⟨_, by rw [emitted, except_bind_ok]; rfl, closed.concat .square⟩
  | call₁ computes denotes inductionHypothesis =>
      obtain ⟨code, emitted, closed⟩ := inductionHypothesis
      have arguments := Compile.emitAll_cons emitted Compile.emitAll_nil
      rw [List.append_nil] at arguments
      have counted := Unary.arity_of_computes computes
      exact ⟨_, Compile.emit_builtin List.not_mem_nil counted.symm arguments,
        closed.concat _⟩
  | @operator position symbol op leftTree rightTree left right computes _ _
        leftEmits rightEmits =>
      obtain ⟨leftCode, leftEmitted, leftClosed⟩ := leftEmits
      obtain ⟨rightCode, rightEmitted, rightClosed⟩ := rightEmits
      have notPower := op.not_square computes rightTree
      simp only [Compile.emit, if_neg notPower]
      exact ⟨_,
        by rw [leftEmitted, rightEmitted, except_bind_ok, except_bind_ok]; rfl,
        (leftClosed.append rightClosed).concat (.binary symbol)⟩
  | call₂ computes leftDenotes rightDenotes leftEmits rightEmits =>
      obtain ⟨leftCode, leftEmitted, leftClosed⟩ := leftEmits
      obtain ⟨rightCode, rightEmitted, rightClosed⟩ := rightEmits
      have arguments :=
        Compile.emitAll_cons leftEmitted
          (Compile.emitAll_cons rightEmitted Compile.emitAll_nil)
      rw [List.append_nil] at arguments
      have counted := Binary.arity_of_computes computes
      exact ⟨_, Compile.emit_builtin List.not_mem_nil counted.symm arguments,
        (leftClosed.append rightClosed).concat _⟩

end Denotes

end IntegerFormula

end Formulary
