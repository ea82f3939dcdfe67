import Formulary.Proofs.Cell.Reread
import Formulary.Proofs.Compile.Inversion
import Formulary.Proofs.Source.Words
import Mathlib.Data.List.Forall2

namespace Formulary

open Stateful

/-!
# Trees that restore a program

The formula of a program is put together cell by cell, and so is the tree that
is read from it.  Each lemma adds one cell: when the operands restore their
programs, the tree with the cell on top restores the whole.
-/

namespace Compile

/--
A tree that compiles to a program as it is read back.  The compiler looks for
literals under a negation and in an exponent, so it matters that the tree is a
literal only where the program is one.
-/
structure Restores
    (signatures : Signatures)
    (params : List String)
    (code : Code)
    (tree : Expr) : Prop where
  emitted : emit signatures params tree = .ok code.reread
  literal :
    ∀ {position : Position} {value : Value}, tree = .literal position value →
      code = Code.push value ∧ (Token.literal value).Lexical
  zero : code = Code.push (.int 0) → ∃ position,
    tree = .literal position (.int 0)

section Cells

variable
  {signatures : Signatures}
  {params : List String}
  {code : Code}
  {tree : Expr}

/--
Nothing that ends in another cell than a literal is the program of a literal.
-/
theorem concat_ne_push
    (front : Code)
    {cell : Cell}
    (notLiteral : cell.isLiteral = false)
    (value : Value) :
    front ++ [cell] ≠ Code.push value := by
  intro same
  have last := congrArg List.getLast? same
  simp only [List.getLast?_concat, Code.push, List.getLast?_singleton,
    Option.some.injEq] at last
  rw [last] at notLiteral
  cases notLiteral

theorem restores_literal
    {value : Value}
    (lexical : (Token.literal value).Lexical)
    (position : Position) :
    Restores signatures params (Code.push value) (.literal position value) where
  emitted := by rw [emit, Code.reread_push]
  literal := by
    rintro _ _ ⟨⟩
    exact ⟨rfl, lexical⟩
  zero := by
    rintro ⟨⟩
    exact ⟨position, rfl⟩

/-- A negated literal other than zero. -/
theorem restores_negatedLiteral
    {value negated : Value}
    {position inner : Position}
    (folds : negatedLiteral? (.literal inner value) = some negated)
    (notZero : negated ≠ .int 0) :
    Restores signatures params (Code.push negated)
      (.negate position (.literal inner value)) where
  emitted := by
    rw [emit, Code.reread_push]
    simp only [folds]
  literal := by rintro _ _ ⟨⟩
  zero := by
    rintro ⟨⟩
    exact absurd rfl notZero

theorem restores_name
    {name : String}
    (resolved : valueOf signatures params name = .ok (.variable name))
    (position : Position) :
    Restores signatures params [.variable name] (.name position name) where
  emitted := by
    rw [emit, resolved]
    rfl
  literal := by rintro _ _ ⟨⟩
  zero := by rintro ⟨⟩

/-- The programs of arguments and indices. -/
theorem emitAll_of_restores
    {codes : List Code}
    {trees : List Expr}
    (restores : List.Forall₂ (Restores signatures params) codes trees)
    (fresh : ∀ code ∈ codes, code.StartsFresh) :
    emitAll signatures params trees = .ok (Code.reread codes.flatten) := by
  induction restores with
  | nil => rfl
  | @cons code tree codes trees first rest inductionHypothesis =>
      have freshRest : ∀ other ∈ codes, other.StartsFresh := fun other member =>
        fresh other (List.mem_cons_of_mem code member)
      have freshFlat : Code.StartsFresh codes.flatten :=
        Code.startsFresh_flatten freshRest
      rw [emitAll, first.emitted, except_bind_ok, inductionHypothesis freshRest,
        except_bind_ok, List.flatten_cons, Code.reread_append _ freshFlat]
      rfl

theorem restores_call
    {name : String}
    {cell : Cell}
    {codes : List Code}
    {trees : List Expr}
    (resolved : callCell signatures params name codes.length = .ok cell)
    (restores : List.Forall₂ (Restores signatures params) codes trees)
    (fresh : ∀ code ∈ codes, code.StartsFresh)
    (position : Position) :
    Restores signatures params (codes.flatten ++ [cell])
      (.call position name trees) where
  emitted := by
    have notNegate : cell ≠ .op .negate := by
      rcases callCell_cases resolved with
          ⟨builtin, -, rfl, -⟩ | ⟨-, rfl, -⟩ | ⟨-, rfl, -⟩
      · cases builtin <;> decide
      · simp
      · simp
    rw [emit, ← restores.length_eq, resolved,
      emitAll_of_restores restores fresh, Code.reread_concat _ notNegate]
    rfl
  literal := by rintro _ _ ⟨⟩
  zero := by
    intro isZero
    refine absurd isZero (concat_ne_push _ ?_ _)
    rcases callCell_cases resolved with
        ⟨builtin, -, rfl, -⟩ | ⟨-, rfl, -⟩ | ⟨-, rfl, -⟩ <;> rfl

theorem restores_element
    {name : String}
    {codes : List Code}
    {trees : List Expr}
    (resolved :
      elementCell signatures params name codes.length =
        .ok (.element name codes.length))
    (restores : List.Forall₂ (Restores signatures params) codes trees)
    (fresh : ∀ code ∈ codes, code.StartsFresh)
    (position : Position) :
    Restores signatures params (codes.flatten ++ [.element name codes.length])
      (.element position name trees) where
  emitted := by
    rw [emit, ← restores.length_eq, resolved,
      emitAll_of_restores restores fresh, Code.reread_concat _ (by simp)]
    rfl
  literal := by rintro _ _ ⟨⟩
  zero := fun isZero => absurd isZero (concat_ne_push _ rfl _)

/--
A negation, which is lost in front of a number that is read back as a literal.
-/
theorem restores_negate
    (restores : Restores signatures params code tree)
    (endsInZero : code.endsInZero false = true → code = Code.push (.int 0))
    (onlyZero :
      ∀ {inner : Position} {value negated : Value},
        (Token.literal value).Lexical →
        code = Code.push value →
        negatedLiteral? (.literal inner value) = some negated →
          value = .int 0)
    (position : Position) :
    Restores signatures params (code ++ [.op .negate])
      (.negate position tree) where
  emitted := by
    rw [emit]
    cases folds : negatedLiteral? tree with
    | some negated =>
        cases tree with
        | literal inner value =>
            obtain ⟨rfl, lexical⟩ := restores.literal rfl
            obtain rfl := onlyZero lexical rfl folds
            cases folds
            rfl
        | name | call | element | negate | binary => cases folds
    | none =>
        have notZero : code.endsInZero false = false := by
          cases ends : code.endsInZero false with
          | false => rfl
          | true =>
              obtain ⟨inner, rfl⟩ := restores.zero (endsInZero ends)
              cases folds
        simp only
        rw [restores.emitted, Code.reread_negate notZero]
        rfl
  literal := by rintro _ _ ⟨⟩
  zero := fun isZero => absurd isZero (concat_ne_push _ rfl _)

theorem restores_square
    (restores : Restores signatures params code tree)
    (position inner : Position) :
    Restores signatures params (code ++ [.op .square])
      (.binary position .pow tree (.literal inner (.int 2))) where
  emitted := by
    rw [emit, if_pos ⟨rfl, rfl⟩, restores.emitted,
      Code.reread_concat _ (by simp)]
    rfl
  literal := by rintro _ _ ⟨⟩
  zero := fun isZero => absurd isZero (concat_ne_push _ rfl _)

theorem restores_binary
    {op : BinaryOp}
    {leftCode rightCode : Code}
    {left right : Expr}
    (restoresLeft : Restores signatures params leftCode left)
    (restoresRight : Restores signatures params rightCode right)
    (fresh : rightCode.StartsFresh)
    (notSquare : op = .pow → rightCode ≠ Code.push (.int 2))
    (position : Position) :
    Restores signatures params (leftCode ++ rightCode ++ [.op (.binary op)])
      (.binary position op left right) where
  emitted := by
    have notTwo : ¬ (op = .pow ∧ isTwo right = true) := by
      rintro ⟨isPower, two⟩
      cases right with
      | literal inner value =>
          obtain ⟨rfl, -⟩ := restoresRight.literal rfl
          cases value with
          | int n =>
              obtain rfl : n = 2 := by simpa [isTwo] using two
              exact notSquare isPower rfl
          | _ => cases two
      | _ => cases two
    rw [emit, if_neg notTwo, restoresLeft.emitted, restoresRight.emitted,
      Code.reread_concat _ (by simp), Code.reread_append _ fresh]
    rfl
  literal := by rintro _ _ ⟨⟩
  zero := fun isZero => absurd isZero (concat_ne_push _ rfl _)

end Cells

section Emitted

variable
  {signatures : Signatures}
  {params : List String}

mutual

/-- A program does not start with a negation. -/
theorem startsFresh_of_emit
    (tree : Expr)
    {code : Code}
    (compiled : emit signatures params tree = .ok code) :
    code ≠ [] ∧ code.StartsFresh := by
  cases tree with
  | literal position value =>
      cases compiled
      simp [Code.push, Code.StartsFresh]
  | name position name =>
      obtain ⟨cell, resolved, last⟩ := except_bind_eq_ok.mp compiled
      obtain rfl := variable_of_valueOf (ok_of_anchor resolved)
      cases last
      simp [Code.StartsFresh]
  | call position name arguments =>
      obtain ⟨cell, resolved, rest⟩ := except_bind_eq_ok.mp compiled
      obtain ⟨argumentCode, argumentsCompile, last⟩ := except_bind_eq_ok.mp rest
      cases last
      have fresh := startsFresh_of_emitAll arguments argumentsCompile
      refine ⟨by simp, fresh.append ?_⟩
      rcases callCell_cases (ok_of_anchor resolved) with
          ⟨builtin, -, rfl, -⟩ | ⟨-, rfl, -⟩ | ⟨-, rfl, -⟩
      · cases builtin <;> simp [Code.StartsFresh, Op.ofBuiltin, Builtin.arity]
      · simp [Code.StartsFresh]
      · simp [Code.StartsFresh]
  | element position name indices =>
      obtain ⟨cell, resolved, rest⟩ := except_bind_eq_ok.mp compiled
      obtain ⟨indexCode, indicesCompile, last⟩ := except_bind_eq_ok.mp rest
      obtain rfl := element_of_elementCell (ok_of_anchor resolved)
      cases last
      have fresh := startsFresh_of_emitAll indices indicesCompile
      exact ⟨by simp, fresh.append (by simp [Code.StartsFresh])⟩
  | negate position operand =>
      simp only [emit] at compiled
      split at compiled
      · cases compiled
        simp [Code.push, Code.StartsFresh]
      · obtain ⟨operandCode, operandCompiles, last⟩ :=
          except_bind_eq_ok.mp compiled
        cases last
        obtain ⟨given, fresh⟩ := startsFresh_of_emit operand operandCompiles
        exact ⟨by simp, fresh.append_of_ne_nil given _⟩
  | binary position op left right =>
      simp only [emit] at compiled
      split at compiled
      · obtain ⟨baseCode, baseCompiles, last⟩ := except_bind_eq_ok.mp compiled
        cases last
        obtain ⟨given, fresh⟩ := startsFresh_of_emit left baseCompiles
        exact ⟨by simp, fresh.append_of_ne_nil given _⟩
      · obtain ⟨leftCode, leftCompiles, rest⟩ := except_bind_eq_ok.mp compiled
        obtain ⟨rightCode, rightCompiles, last⟩ := except_bind_eq_ok.mp rest
        cases last
        obtain ⟨given, fresh⟩ := startsFresh_of_emit left leftCompiles
        refine ⟨by simp, ?_⟩
        rw [List.append_assoc]
        exact fresh.append_of_ne_nil given _

theorem startsFresh_of_emitAll
    (trees : List Expr)
    {code : Code}
    (compiled : emitAll signatures params trees = .ok code) :
    code.StartsFresh := by
  cases trees with
  | nil =>
      cases compiled
      simp [Code.StartsFresh]
  | cons tree rest =>
      obtain ⟨firstCode, firstCompiles, more⟩ := except_bind_eq_ok.mp compiled
      obtain ⟨restCode, restCompiles, last⟩ := except_bind_eq_ok.mp more
      cases last
      obtain ⟨given, fresh⟩ := startsFresh_of_emit tree firstCompiles
      exact fresh.append_of_ne_nil given _

end

/--
A program is that of a literal, perhaps of a negated one, or ends in another
cell.
-/
theorem emit_cases
    {tree : Expr}
    {code : Code}
    (compiled : emit signatures params tree = .ok code) :
    (∃ position value,
      tree = .literal position value ∧ code = Code.push value) ∨
    (∃ position operand value, tree = .negate position operand ∧
      negatedLiteral? operand = some value ∧ code = Code.push value) ∨
    (∃ front cell, code = front ++ [cell] ∧ cell.isLiteral = false) := by
  cases tree with
  | literal position value =>
      cases compiled
      exact .inl ⟨position, value, rfl, rfl⟩
  | name position name =>
      obtain ⟨cell, resolved, last⟩ := except_bind_eq_ok.mp compiled
      obtain rfl := variable_of_valueOf (ok_of_anchor resolved)
      cases last
      exact .inr (.inr ⟨[], _, rfl, rfl⟩)
  | call position name arguments =>
      obtain ⟨cell, resolved, rest⟩ := except_bind_eq_ok.mp compiled
      obtain ⟨argumentCode, argumentsCompile, last⟩ := except_bind_eq_ok.mp rest
      cases last
      refine .inr (.inr ⟨_, _, rfl, ?_⟩)
      rcases callCell_cases (ok_of_anchor resolved) with
          ⟨builtin, -, rfl, -⟩ | ⟨-, rfl, -⟩ | ⟨-, rfl, -⟩ <;> rfl
  | element position name indices =>
      obtain ⟨cell, resolved, rest⟩ := except_bind_eq_ok.mp compiled
      obtain ⟨indexCode, indicesCompile, last⟩ := except_bind_eq_ok.mp rest
      obtain rfl := element_of_elementCell (ok_of_anchor resolved)
      cases last
      exact .inr (.inr ⟨_, _, rfl, rfl⟩)
  | negate position operand =>
      simp only [emit] at compiled
      split at compiled
      · rename_i value folds
        cases compiled
        exact .inr (.inl ⟨position, operand, value, rfl, folds, rfl⟩)
      · obtain ⟨operandCode, operandCompiles, last⟩ :=
          except_bind_eq_ok.mp compiled
        cases last
        exact .inr (.inr ⟨_, _, rfl, rfl⟩)
  | binary position op left right =>
      simp only [emit] at compiled
      split at compiled
      · obtain ⟨baseCode, baseCompiles, last⟩ := except_bind_eq_ok.mp compiled
        cases last
        exact .inr (.inr ⟨_, _, rfl, rfl⟩)
      · obtain ⟨leftCode, leftCompiles, rest⟩ := except_bind_eq_ok.mp compiled
        obtain ⟨rightCode, rightCompiles, last⟩ := except_bind_eq_ok.mp rest
        cases last
        exact .inr (.inr ⟨_, _, rfl, rfl⟩)

/-- A program that ends in a zero is a zero. -/
theorem eq_zero_of_endsInZero
    {tree : Expr}
    {code : Code}
    (compiled : emit signatures params tree = .ok code)
    (ends : code.endsInZero false = true) :
    code = Code.push (.int 0) := by
  have ofPush {value : Value}
      (isZero : (Code.push value).endsInZero false = true) :
      Code.push value = Code.push (.int 0) := by
    obtain rfl : value = .int 0 := by
      simpa [Code.push, Code.endsInZero, Code.zero] using isZero
    rfl
  rcases emit_cases compiled with
      ⟨position, value, -, rfl⟩ |
      ⟨position, operand, value, -, -, rfl⟩ |
      ⟨front, cell, rfl, notLiteral⟩
  · exact ofPush ends
  · exact ofPush ends
  · rw [Code.endsInZero_concat] at ends
    obtain rfl : cell = Code.zero := by simpa using ends
    cases notLiteral

/-- A number and its opposite that are both written without a sign. -/
theorem neg_eq_zero_of_nonnegative
    {n : Int64}
    (nonnegative : 0 ≤ n.toInt)
    (oppositeNonnegative : 0 ≤ (-n).toInt) :
    -n = 0 := by
  have upper := n.toInt_lt
  rw [Int64.toInt_neg,
    Int.bmod_eq_of_le (by omega) (by omega)] at oppositeNonnegative
  have zero : n.toInt = 0 := by omega
  have isZero : n = 0 := Int64.toInt_inj.mp (by simpa using zero)
  rw [isZero]
  decide

/-- A negated literal has a sign, unless it is a zero. -/
theorem negated_eq_zero
    {operand : Expr}
    {value : Value}
    (folds : negatedLiteral? operand = some value)
    (operandLexical : operand.Lexical)
    (lexical : (Token.literal value).Lexical) :
    value = .int 0 := by
  cases operand with
  | literal inner other =>
      have inside : (Token.literal other).Lexical :=
        operandLexical _ List.mem_cons_self
      cases other with
      | int n =>
          cases folds
          exact congrArg Value.int (neg_eq_zero_of_nonnegative inside lexical)
      | double x =>
          cases folds
          have noSign : x.neg.isNegative = false := lexical.2
          have nonnegative : x.isNegative = false := inside.2
          rw [Double.isNegative_neg, nonnegative] at noSign
          cases noSign
      | string | bool => cases folds
  | name | call | element | negate | binary => cases folds

/--
The program of a literal without a sign comes from the literal, or from a
negated zero.
-/
theorem literal_of_emit_push
    {tree : Expr}
    {value : Value}
    (compiled : emit signatures params tree = .ok (Code.push value))
    (treeLexical : tree.Lexical)
    (lexical : (Token.literal value).Lexical) :
    (∃ position, tree = .literal position value) ∨ value = .int 0 := by
  rcases emit_cases compiled with
      ⟨position, other, rfl, same⟩ |
      ⟨position, operand, other, rfl, folds, same⟩ |
      ⟨front, cell, same, notLiteral⟩
  · cases same
    exact .inl ⟨position, rfl⟩
  · cases same
    exact .inr (negated_eq_zero folds treeLexical lexical)
  · exact absurd same.symm (concat_ne_push front notLiteral value)

/--
An operand whose sign is not folded can only be pushed as a number if that is
zero.
-/
theorem eq_zero_of_not_folded
    {operand : Expr}
    {code : Code}
    (compiled : emit signatures params operand = .ok code)
    (operandLexical : operand.Lexical)
    (notFolded : negatedLiteral? operand = none)
    {inner : Position}
    {value negated : Value}
    (lexical : (Token.literal value).Lexical)
    (isPush : code = Code.push value)
    (folds : negatedLiteral? (.literal inner value) = some negated) :
    value = .int 0 := by
  subst isPush
  rcases literal_of_emit_push compiled operandLexical lexical with
      ⟨other, rfl⟩ | isZero
  · cases value with
    | int | double => cases notFolded
    | string | bool => cases folds
  · exact isZero

/-- An exponent that does not make a square is not pushed as two. -/
theorem ne_two_of_not_square
    {op : BinaryOp}
    {exponent : Expr}
    {code : Code}
    (compiled : emit signatures params exponent = .ok code)
    (lexical : exponent.Lexical)
    (notSquare : ¬ (op = .pow ∧ isTwo exponent))
    (isPower : op = .pow) :
    code ≠ Code.push (.int 2) := by
  rintro rfl
  have two : (Token.literal (.int 2)).Lexical :=
    (by decide : 0 ≤ (2 : Int64).toInt)
  rcases literal_of_emit_push compiled lexical two with ⟨inner, rfl⟩ | isZero
  · exact notSquare ⟨isPower, rfl⟩
  · cases isZero

end Emitted

end Compile

end Formulary
