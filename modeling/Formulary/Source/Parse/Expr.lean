import Formulary.Source.Cursor
import Formulary.Source.Expr

namespace Formulary

/-!
# Parsing expressions

Recursive descent over tokens.  Operators bind, loosest first:
comparisons, which do not chain; `+ -` and `* /`, to the left; `^`, to the
right; and unary minus, so that `-2^2` is the square of `-2`.

Every function is given a bound on the depth of its recursion.  The entry
points choose it from the number of tokens, large enough that no input reaches
it: a token is consumed at least once in eight nested calls.
-/

namespace Parse

def isAdditive (op : BinaryOp) : Bool :=
  op = .add || op = .sub

def isMultiplicative (op : BinaryOp) : Bool :=
  op = .mul || op = .div

def isPower (op : BinaryOp) : Bool :=
  op = .pow

mutual

/-- A comparison, or a sum. -/
def expression : Nat → Cursor → Except SyntaxError (Expr × Cursor)
  | 0, cursor => cursor.unexpected .expression
  | depth + 1, cursor => do
      let (left, cursor) ← sum depth cursor
      match cursor.operator? BinaryOp.isComparison with
      | none => return (left, cursor)
      | some op =>
          let (right, cursor) ← sum depth cursor.advance
          match cursor.operator? BinaryOp.isComparison with
          | some _ => cursor.fail .chainedComparison
          | none => return (.combine op left right, cursor)

/-- Terms joined by `+` and `-`. -/
def sum : Nat → Cursor → Except SyntaxError (Expr × Cursor)
  | 0, cursor => cursor.unexpected .expression
  | depth + 1, cursor => do
      let (left, cursor) ← term depth cursor
      sumTail depth left cursor

/-- More terms after a sum. -/
def sumTail : Nat → Expr → Cursor → Except SyntaxError (Expr × Cursor)
  | 0, _, cursor => cursor.unexpected .expression
  | depth + 1, left, cursor =>
      match cursor.operator? isAdditive with
      | none => .ok (left, cursor)
      | some op => do
          let (right, cursor) ← term depth cursor.advance
          sumTail depth (.combine op left right) cursor

/-- Powers joined by `*` and `/`. -/
def term : Nat → Cursor → Except SyntaxError (Expr × Cursor)
  | 0, cursor => cursor.unexpected .expression
  | depth + 1, cursor => do
      let (left, cursor) ← power depth cursor
      termTail depth left cursor

/-- More powers after a term. -/
def termTail : Nat → Expr → Cursor → Except SyntaxError (Expr × Cursor)
  | 0, _, cursor => cursor.unexpected .expression
  | depth + 1, left, cursor =>
      match cursor.operator? isMultiplicative with
      | none => .ok (left, cursor)
      | some op => do
          let (right, cursor) ← power depth cursor.advance
          termTail depth (.combine op left right) cursor

/-- A base, perhaps raised to a power. -/
def power : Nat → Cursor → Except SyntaxError (Expr × Cursor)
  | 0, cursor => cursor.unexpected .expression
  | depth + 1, cursor => do
      let (base, cursor) ← unary depth cursor
      match cursor.operator? isPower with
      | none => return (base, cursor)
      | some op =>
          let (exponent, cursor) ← power depth cursor.advance
          return (.combine op base exponent, cursor)

/-- A primary expression behind any number of minus signs. -/
def unary : Nat → Cursor → Except SyntaxError (Expr × Cursor)
  | 0, cursor => cursor.unexpected .expression
  | depth + 1, cursor =>
      if cursor.peek? = some (.operator .sub) then do
        let (operand, next) ← unary depth cursor.advance
        return (.negate cursor.here operand, next)
      else primary depth cursor

/--
A literal, a name with or without arguments or subscripts, or a parenthesis.
-/
def primary : Nat → Cursor → Except SyntaxError (Expr × Cursor)
  | 0, cursor => cursor.unexpected .expression
  | depth + 1, cursor =>
      match cursor.peek? with
      | some (.literal value) =>
          .ok (.literal cursor.here value, cursor.advance)
      | some (.mark .openParen) => do
          let (inner, next) ← expression depth cursor.advance
          let next ← next.expect .closeParen .closeParen
          return (inner, next)
      | some (.name name) =>
          let next := cursor.advance
          match next.peek? with
          | some (.mark .openParen) => do
              let (items, next) ← arguments depth next
              return (.call cursor.here name items, next)
          | some (.mark .openBracket) => do
              let (indices, next) ← subscripts depth next
              return (.element cursor.here name indices, next)
          | _ => .ok (.name cursor.here name, next)
      | _ => cursor.unexpected .expression

/-- Expressions in parentheses; there may be none. -/
def arguments : Nat → Cursor → Except SyntaxError ((List Expr) × Cursor)
  | 0, cursor => cursor.unexpected .expression
  | depth + 1, cursor =>
      let cursor := cursor.advance
      if cursor.at? .closeParen then .ok ([], cursor.advance)
      else do
        let (items, cursor) ← expressions depth cursor
        let cursor ← cursor.expect .closeParen .closeArguments
        return (items, cursor)

/-- Expressions separated by commas, at least one. -/
def expressions : Nat → Cursor → Except SyntaxError ((List Expr) × Cursor)
  | 0, cursor => cursor.unexpected .expression
  | depth + 1, cursor => do
      let (item, cursor) ← expression depth cursor
      if cursor.at? .comma then
        let (items, cursor) ← expressions depth cursor.advance
        return (item :: items, cursor)
      else return ([item], cursor)

/-- Groups of subscripts in brackets, taken together. -/
def subscripts : Nat → Cursor → Except SyntaxError ((List Expr) × Cursor)
  | 0, cursor => cursor.unexpected .expression
  | depth + 1, cursor =>
      if cursor.at? .openBracket then do
        let (group, cursor) ← expressions depth cursor.advance
        let cursor ← cursor.expect .closeBracket .closeSubscript
        let (groups, cursor) ← subscripts depth cursor
        return (group ++ groups, cursor)
      else .ok ([], cursor)

end

end Parse

end Formulary
