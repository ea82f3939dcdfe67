import Formulary.Proofs.Eval.Walk
import Formulary.Proofs.Source.Literals

namespace Formulary

open Stateful

/-!
# Integer formulas

Formulas of integer literals with signs, the four operations, squares and the
built-in functions that keep integers integral.  Their values are integers of
any size, and a formula fits if all the values on the way are words.  A tree of
the source denotes such a formula however its operations are written, and the
operations of the language compute them exactly or not at all.
-/

/-- Integers that are words. -/
def FitsWord (n : Int) : Prop :=
  -2 ^ 63 ≤ n ∧ n < 2 ^ 63

instance : DecidablePred FitsWord :=
  fun n => inferInstanceAs (Decidable (-2 ^ 63 ≤ n ∧ n < 2 ^ 63))

theorem fitsWord_toInt (word : Int64) : FitsWord word.toInt :=
  ⟨word.le_toInt, word.toInt_lt⟩

namespace IntegerFormula

/-- Operations on one integer. -/
inductive Unary where
  | negate
  | square
  | abs
  | sign
  | nint
deriving Repr, DecidableEq

/-- Operations on two integers. -/
inductive Binary where
  | add
  | sub
  | mul
  | div
  | max
  | min
deriving Repr, DecidableEq

end IntegerFormula

/-- A formula of integers. -/
inductive IntegerFormula where
  | literal (n : Nat)
  | unary (op : IntegerFormula.Unary) (operand : IntegerFormula)
  | binary (op : IntegerFormula.Binary) (left right : IntegerFormula)
deriving Repr, DecidableEq

namespace IntegerFormula

def Unary.value : Unary → Int → Int
  | .negate, n => -n
  | .square, n => n ^ 2
  | .abs, n => n.natAbs
  | .sign, n => n.sign
  | .nint, n => n

/-- Division goes toward zero. -/
def Binary.value : Binary → Int → Int → Int
  | .add, a, b => a + b
  | .sub, a, b => a - b
  | .mul, a, b => a * b
  | .div, a, b => a.tdiv b
  | .max, a, b => Max.max a b
  | .min, a, b => Min.min a b

/-- Whether an operation has a value. -/
def Binary.Defined (op : Binary) (divisor : Int) : Prop :=
  op = .div → divisor ≠ 0

instance (op : Binary) (divisor : Int) : Decidable (op.Defined divisor) :=
  inferInstanceAs (Decidable (op = .div → divisor ≠ 0))

/-- The exact value of a formula. -/
def value : IntegerFormula → Int
  | .literal n => n
  | .unary op operand => op.value operand.value
  | .binary op left right => op.value left.value right.value

/-- All values on the way are words, and no divisor is zero. -/
def Fits : IntegerFormula → Prop
  | .literal n => FitsWord n
  | .unary op operand => operand.Fits ∧ FitsWord (op.value operand.value)
  | .binary op left right =>
      left.Fits ∧ right.Fits ∧ op.Defined right.value ∧
        FitsWord (op.value left.value right.value)

instance decidableFits : (formula : IntegerFormula) → Decidable formula.Fits
  | .literal n => inferInstanceAs (Decidable (FitsWord n))
  | .unary op operand =>
      have := decidableFits operand
      inferInstanceAs
        (Decidable (operand.Fits ∧ FitsWord (op.value operand.value)))
  | .binary op left right =>
      have := decidableFits left
      have := decidableFits right
      inferInstanceAs
        (Decidable (left.Fits ∧ right.Fits ∧ op.Defined right.value ∧
          FitsWord (op.value left.value right.value)))

def isLiteral : IntegerFormula → Bool
  | .literal _ => true
  | _ => false

/--
Number of cells that are executed; a sign in front of a literal belongs to it.
-/
def steps : IntegerFormula → Nat
  | .literal _ => 1
  | .unary op operand =>
      if op = .negate ∧ operand.isLiteral then operand.steps
      else operand.steps + 1
  | .binary _ left right => left.steps + right.steps + 1

/-- Number of operands that wait at most while a cell is executed. -/
def peak : IntegerFormula → Nat
  | .literal _ => 0
  | .unary op operand =>
      if op = .negate ∧ operand.isLiteral then operand.peak
      else Max.max operand.peak 1
  | .binary _ left right => Max.max left.peak (Max.max (1 + right.peak) 2)

end IntegerFormula

/--
Limits that do not allow as many levels of nesting, steps or waiting cells.
-/
def Config.Exceeds (config : Config) (levels steps depth : Nat) : Limit → Prop
  | .callDepth most => config.maxCallDepth = most ∧ most < levels
  | .steps most => config.maxSteps = some most ∧ most < steps
  | .stackSize most => config.maxStackSize = most ∧ most < depth

namespace IntegerFormula

/--
Limits that do not allow a formula to be evaluated on a stack of a given depth.
-/
def Exceeds
    (config : Config)
    (depth : Nat)
    (formula : IntegerFormula)
    (limit : Limit) :
    Prop :=
  config.Exceeds 1 formula.steps (depth + formula.peak) limit

/-- The operation of the language that computes an operation on integers. -/
def Unary.operation : Unary → Op
  | .negate => .negate
  | .square => .square
  | .abs => .builtin₁ .abs
  | .sign => .sign
  | .nint => .nint

@[inherit_doc Unary.operation]
def Binary.operation : Binary → Op
  | .add => .binary .add
  | .sub => .binary .sub
  | .mul => .binary .mul
  | .div => .binary .div
  | .max => .builtin₂ .max
  | .min => .builtin₂ .min

/-- The formula a tree stands for. -/
inductive Denotes : Expr → IntegerFormula → Prop where
  | literal
      {position : Position}
      {word : Int64}
      {n : Nat}
      (same : word.toInt = n) :
      Denotes (.literal position (.int word)) (.literal n)
  | negate
      {position : Position}
      {tree : Expr}
      {operand : IntegerFormula}
      (denotes : Denotes tree operand) :
      Denotes (.negate position tree) (.unary .negate operand)
  | square
      {position exponentPosition : Position}
      {tree : Expr}
      {base : IntegerFormula}
      (denotes : Denotes tree base) :
      Denotes (.binary position .pow tree (.literal exponentPosition (.int 2)))
        (.unary .square base)
  | call₁
      {position : Position}
      {builtin : Builtin}
      {op : Unary}
      {tree : Expr}
      {operand : IntegerFormula}
      (computes : Op.ofBuiltin builtin = op.operation)
      (denotes : Denotes tree operand) :
      Denotes (.call position builtin.name [tree]) (.unary op operand)
  | operator
      {position : Position}
      {symbol : BinaryOp}
      {op : Binary}
      {leftTree rightTree : Expr}
      {left right : IntegerFormula}
      (computes : Op.binary symbol = op.operation)
      (leftDenotes : Denotes leftTree left)
      (rightDenotes : Denotes rightTree right) :
      Denotes (.binary position symbol leftTree rightTree)
        (.binary op left right)
  | call₂
      {position : Position}
      {builtin : Builtin}
      {op : Binary}
      {leftTree rightTree : Expr}
      {left right : IntegerFormula}
      (computes : Op.ofBuiltin builtin = op.operation)
      (leftDenotes : Denotes leftTree left)
      (rightDenotes : Denotes rightTree right) :
      Denotes (.call position builtin.name [leftTree, rightTree])
        (.binary op left right)

/-- The exact integer, or an arithmetic fault when a condition fails. -/
inductive Exact (fits : Prop) (n : Int) : Except Fault Value → Prop where
  | value
      {word : Int64}
      (holds : fits)
      (exact : word.toInt = n) :
      Exact fits n (.ok (.int word))
  | fault
      {fault : ArithmeticFault}
      (fails : ¬ fits) :
      Exact fits n (.error (.arithmetic fault))

namespace Exact

theorem congr
    {fits other : Prop}
    {n : Int}
    {result : Except Fault Value}
    (exact : Exact fits n result)
    (same : fits ↔ other) :
    Exact other n result :=
  propext same ▸ exact

theorem word (n : Int64) : Exact (FitsWord n.toInt) n.toInt (.ok (.int n)) :=
  .value (fitsWord_toInt n) rfl

/-- A checked integer is the integer itself. -/
theorem checked
    (n : Int)
    (fault : ArithmeticFault) :
    Exact (FitsWord n) n (Op.fits (checkedInt n) fault) := by
  cases found : checkedInt n with
  | some word =>
      obtain rfl := checkedInt_eq_some_iff.mp found
      exact Exact.word word
  | none =>
      refine .fault fun ⟨lower, upper⟩ => ?_
      have holds : (Int64.ofInt n).toInt = n :=
        Int64.toInt_ofInt_of_le lower upper
      rw [checkedInt_eq_some_iff.mpr holds] at found
      cases found

end Exact

/-- Operations on a word are exact. -/
theorem Unary.exact
    (op : Unary)
    (word : Int64) :
    Exact (FitsWord (op.value word.toInt)) (op.value word.toInt)
      (Walk.operate op.operation [.int word]) := by
  cases op with
  | negate => exact Exact.checked _ _
  | square =>
      show Exact (FitsWord (word.toInt ^ 2)) (word.toInt ^ 2) _
      rw [pow_two]
      exact Exact.checked _ _
  | abs => exact Exact.checked _ _
  | sign =>
      have small : -1 ≤ word.toInt.sign ∧ word.toInt.sign ≤ 1 := by
        rcases Int.sign_trichotomy word.toInt with
            one | zero | minusOne <;> omega
      have holds : (Int64.ofInt word.toInt.sign).toInt = word.toInt.sign :=
        Int64.toInt_ofInt_of_le (by omega) (by omega)
      show Exact (FitsWord word.toInt.sign) word.toInt.sign
        (.ok (.int (Int64.ofInt word.toInt.sign)))
      have exact := Exact.word (Int64.ofInt word.toInt.sign)
      rwa [holds] at exact
  | nint => exact Exact.word word

/-- Operations on two words are exact. -/
theorem Binary.exact
    (op : Binary)
    (a b : Int64) :
    Exact (op.Defined b.toInt ∧ FitsWord (op.value a.toInt b.toInt))
      (op.value a.toInt b.toInt)
      (Walk.operate op.operation [.int a, .int b]) := by
  have always (op : Binary) (total : op ≠ .div) {n : Int} :
      FitsWord n ↔ op.Defined b.toInt ∧ FitsWord n :=
    ⟨fun fits => ⟨fun isDivision => absurd isDivision total, fits⟩, And.right⟩
  cases op with
  | add => exact (Exact.checked _ _).congr (always .add (by decide))
  | sub => exact (Exact.checked _ _).congr (always .sub (by decide))
  | mul => exact (Exact.checked _ _).congr (always .mul (by decide))
  | div =>
      show Exact _ _ (if b = 0 then .error (.arithmetic .divisionByZero)
        else Op.fits (checkedDiv a b) (.overflow .div a b))
      by_cases zero : b = 0
      · rw [if_pos zero]
        exact .fault fun ⟨defined, _⟩ => defined rfl (by simp [zero])
      · rw [if_neg zero]
        have nonzero : b.toInt ≠ 0 := fun isZero =>
          zero (Int64.toInt_inj.mp (by simpa using isZero))
        exact (Exact.checked _ _).congr
          ⟨fun fits => ⟨fun _ => nonzero, fits⟩, And.right⟩
  | max =>
      have larger :
          (if a < b then b else a).toInt = Max.max a.toInt b.toInt := by
        by_cases below : a < b
        · rw [if_pos below, max_eq_right (Int64.lt_iff_toInt_lt.mp below).le]
        · rw [if_neg below,
            max_eq_left (Int64.le_iff_toInt_le.mp (Int64.not_lt.mp below))]
      have exact := Exact.word (if a < b then b else a)
      rw [larger] at exact
      exact exact.congr (always .max (by decide))
  | min =>
      have smaller :
          (if b < a then b else a).toInt = Min.min a.toInt b.toInt := by
        by_cases below : b < a
        · rw [if_pos below, min_eq_right (Int64.lt_iff_toInt_lt.mp below).le]
        · rw [if_neg below,
            min_eq_left (Int64.le_iff_toInt_le.mp (Int64.not_lt.mp below))]
      have exact := Exact.word (if b < a then b else a)
      rw [smaller] at exact
      exact exact.congr (always .min (by decide))

end IntegerFormula

end Formulary
