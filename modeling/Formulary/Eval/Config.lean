import Formulary.Entry.Curve

namespace Formulary

/-!
# Settings of a machine
-/

/-- Where a name that is referred to inside a function is looked up. -/
inductive NameResolution where
  /-- In every active frame, innermost first, and then in the global scope. -/
  | dynamic
  /--
  Among the parameters of the running function, and then in the global scope.
  -/
  | lexical
deriving Repr, DecidableEq, Inhabited

/-- Limits and policies of evaluation. -/
structure Config where
  /-- How deep evaluations may nest. -/
  maxCallDepth : Nat := 128
  /-- How many cells one evaluation may execute, if limited. -/
  maxSteps : Option Nat := none
  /-- How many cells the operand stack may hold when a cell is executed. -/
  maxStackSize : Nat := 10000
  /-- How many elements an array may be declared with. -/
  maxArrayElements : Nat := 1000000
  extrapolation : Curve.Extrapolation := .linear
  nameResolution : NameResolution := .dynamic
deriving Repr, DecidableEq, Inhabited

end Formulary
