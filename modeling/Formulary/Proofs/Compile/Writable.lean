import Formulary.Proofs.Entry.Declaration

namespace Formulary

open Grammar

/-!
# Values that can be written

A value is written as a literal, and a literal is read as a value.  A negative
number is read as a number behind a minus, so the smallest integer, whose
opposite is no integer, has no literal, and neither has a double that is not
finite.
-/

/-- A value that its literal is read as. -/
def Value.Writable : Value → Prop
  | .int n => n ≠ Int64.minValue
  | .double x => x.isFinite = true
  | .string _ => True
  | .bool _ => True

instance : (value : Value) → Decidable value.Writable
  | .int n => inferInstanceAs (Decidable (n ≠ Int64.minValue))
  | .double x => inferInstanceAs (Decidable (x.isFinite = true))
  | .string _ => .isTrue trivial
  | .bool _ => .isTrue trivial

namespace Compile

variable
  {signatures : Signatures}
  {params : List String}

/-- The opposite of an integer other than the smallest. -/
theorem toInt_neg_of_ne_minValue
    {n : Int64}
    (notSmallest : n ≠ Int64.minValue) :
    (-n).toInt = -n.toInt := by
  have different : n.toInt ≠ Int64.minValue.toInt := fun same =>
    notSmallest (Int64.toInt_inj.mp same)
  have smallest : Int64.minValue.toInt = -2 ^ 63 := by decide
  have lower := n.le_toInt
  have upper := n.toInt_lt
  rw [Int64.toInt_neg, Int.bmod_eq_of_le (by omega) (by omega)]

/-- The text of an integer other than the smallest reads back. -/
theorem formula_int
    {n : Int64}
    (notSmallest : n ≠ Int64.minValue) :
    FormulaOf signatures params .expression (Value.int n).literal.toList
      (Code.push (.int n)) := by
  by_cases sign : 0 ≤ n.toInt
  · have lexical : (Token.literal (.int n)).Lexical := sign
    exact (phrased_literal lexical).reads.asExpression
  · have opposite := toInt_neg_of_ne_minValue notSmallest
    have lexical : (Token.literal (.int (-n))).Lexical := by
      show 0 ≤ (-n).toInt
      omega
    have folds :
        negatedLiteral? (.literal Position.start (.int (-n))) =
          some (.int n) := by
      simp [negatedLiteral?]
    have notZero : (.int n : Value) ≠ .int 0 := by
      rintro ⟨rfl⟩
      exact sign (by decide)
    exact (phrased_negatedLiteral lexical folds notZero).reads.asExpression

/-- The literal of a writable value reads back. -/
theorem formula_writable
    {value : Value}
    (writable : value.Writable) :
    FormulaOf signatures params .expression value.literal.toList
      (Code.push value) := by
  cases value with
  | int n => exact formula_int writable
  | double x => exact formula_double writable
  | string text =>
      have lexical : (Token.literal (.string text)).Lexical := trivial
      exact (phrased_literal lexical).reads.asExpression
  | bool truth =>
      have lexical : (Token.literal (.bool truth)).Lexical := trivial
      exact (phrased_literal lexical).reads.asExpression

end Compile

end Formulary
