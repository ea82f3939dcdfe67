import Formulary.Source.Parse.Expr

namespace Formulary

/-!
# Parsing statements

Every statement ends in a semicolon.  Braces hold the points of a table when a
comma follows the first expression of their first parenthesis, and the elements
of an array otherwise.
-/

namespace Parse

/-- Names separated by commas, at least one. -/
def params : Nat → Cursor → Except SyntaxError ((List String) × Cursor)
  | 0, cursor => cursor.unexpected .paramName
  | depth + 1, cursor => do
      let (name, cursor) ← cursor.expectName .paramName
      if cursor.at? .comma then
        let (names, cursor) ← params depth cursor.advance
        return (name :: names, cursor)
      else return ([name], cursor)

/-- Initializers up to a closing mark, perhaps with a comma before it. -/
def elements
    (close : Mark) :
    Nat → Cursor → Except SyntaxError ((List Expr) × Cursor)
  | 0, cursor => cursor.unexpected .expression
  | depth + 1, cursor => do
      let (item, cursor) ← expression depth cursor
      if cursor.at? .comma then
        let cursor := cursor.advance
        if cursor.at? close then return ([item], cursor.advance)
        else
          let (items, cursor) ← elements close depth cursor
          return (item :: items, cursor)
      else
        let cursor ← cursor.expect close (.commaOr close)
        return ([item], cursor)

/-- The initializers of an array, after their opening mark. -/
def initializer
    (close : Mark)
    (depth : Nat)
    (cursor : Cursor) :
    Except SyntaxError ((List Expr) × Cursor) :=
  if cursor.at? close then cursor.fail .emptyInitializer
  else elements close depth cursor

/-- Points up to a closing brace, with or without commas after them. -/
def points : Nat → Cursor → Except SyntaxError ((List (Expr × Expr)) × Cursor)
  | 0, cursor => cursor.unexpected .openPoint
  | depth + 1, cursor => do
      let cursor ← cursor.expect .openParen .openPoint
      let (x, cursor) ← expression depth cursor
      let cursor ← cursor.expect .comma .commaInPoint
      let (y, cursor) ← expression depth cursor
      let cursor ← cursor.expect .closeParen .closePoint
      let cursor := cursor.skip .comma
      if cursor.at? .closeBrace then return ([(x, y)], cursor.advance)
      else if cursor.at? .openParen then
        let (others, cursor) ← points depth cursor
        return ((x, y) :: others, cursor)
      else cursor.unexpected .pointOrClose

/-- Whether a parenthesis with a comma after its first expression comes next. -/
def startsPoint (depth : Nat) (cursor : Cursor) : Bool :=
  cursor.at? .openParen &&
    match expression depth cursor.advance with
    | .ok (_, cursor) => cursor.at? .comma
    | .error _ => false

/-- What braces hold. -/
inductive Braced where
  | points (points : List (Expr × Expr))
  | elements (elements : List Expr)

/--
The points of a table or the initializers of an array, after the opening brace.
-/
def braced
    (depth : Nat)
    (cursor : Cursor) :
    Except SyntaxError (Braced × Cursor) :=
  if startsPoint depth cursor then do
    let (items, cursor) ← points depth cursor
    return (.points items, cursor)
  else do
    let (items, cursor) ← initializer .closeBrace depth cursor
    return (.elements items, cursor)

/-- What follows a name and an equals sign. -/
def definition
    (depth : Nat)
    (name : String)
    (cursor : Cursor) :
    Except SyntaxError (Action × Cursor) :=
  match cursor.peek? with
  | some (.mark .openBrace) => do
      let (contents, cursor) ← braced depth cursor.advance
      match contents with
      | .points items => return (.curve name items, cursor)
      | .elements items => return (.array name none items, cursor)
  | some (.mark .openBracket) => do
      let (items, cursor) ← initializer .closeBracket depth cursor.advance
      return (.array name none items, cursor)
  | _ => do
      let (value, cursor) ← expression depth cursor
      return (.scalar name value, cursor)

/-- What follows a name and an opening parenthesis. -/
def function
    (depth : Nat)
    (name : String)
    (cursor : Cursor) :
    Except SyntaxError (Action × Cursor) := do
  let (names, cursor) ← params depth cursor
  let cursor ← cursor.expect .closeParen .closeParams
  let cursor ← cursor.expect .assign .assignAfterParams
  let (body, cursor) ← expression depth cursor
  return (.function name names body, cursor)

/--
What follows a name in front of an opening bracket; `position` is that of the
name.
-/
def subscripted
    (depth : Nat)
    (position : Position)
    (name : String)
    (cursor : Cursor) :
    Except SyntaxError (Action × Cursor) := do
  let (indices, cursor) ← subscripts depth cursor
  let cursor ← cursor.expect .assign .assignAfterSubscript
  match cursor.peek? with
  | some (.mark .openBracket) =>
      let (items, cursor) ← initializer .closeBracket depth cursor.advance
      return (.array name (some indices) items, cursor)
  | some (.mark .openBrace) =>
      let (contents, cursor) ← braced depth cursor.advance
      match contents with
      | .points _ => throw ⟨.sizedPoints, position⟩
      | .elements items => return (.array name (some indices) items, cursor)
  | _ =>
      let (value, cursor) ← expression depth cursor
      return (.assign name indices value, cursor)

/-- What a statement that starts with a name declares or does. -/
def named
    (depth : Nat)
    (cursor : Cursor) :
    Except SyntaxError (Action × Cursor) := do
  let position := cursor.here
  let (name, cursor) ← cursor.expectName .statementName
  match cursor.peek? with
  | some (.mark .assign) => definition depth name cursor.advance
  | some (.mark .openParen) => function depth name cursor.advance
  | some (.mark .openBracket) => subscripted depth position name cursor
  | _ => cursor.unexpected .afterName

/-- One statement with its semicolon. -/
def statement
    (depth : Nat)
    (cursor : Cursor) :
    Except SyntaxError (Statement × Cursor) := do
  let position := cursor.here
  if cursor.peek? = some .print then
    let (value, cursor) ← expression depth cursor.advance
    let cursor ← cursor.expect .semicolon .endOfPrint
    return (⟨position, .print value⟩, cursor)
  else
    let (action, cursor) ← named depth cursor
    let cursor ← cursor.expect .semicolon .endOfStatement
    return (⟨position, action⟩, cursor)

/--
Statements up to the end of the text; semicolons between them are skipped.
-/
def statements
    (depth : Nat) :
    Nat → Cursor → Except SyntaxError (List Statement)
  | 0, _ => .ok []
  | count + 1, cursor =>
      match cursor.peek? with
      | none | some .eof => .ok []
      | some (.mark .semicolon) => statements depth count cursor.advance
      | some _ => do
          let (first, cursor) ← statement depth cursor
          let others ← statements depth count cursor
          return first :: others

/-- A recursion bound that no list of tokens reaches. -/
def depthFor (tokens : List (Located Token)) : Nat :=
  8 * (tokens.length + 1)

/-- A cursor before the first token that is not a comment. -/
def start (tokens : List (Located Token)) : Cursor :=
  ⟨Token.clean tokens, none⟩

/-- The statements of a source. -/
def program
    (tokens : List (Located Token)) :
    Except SyntaxError (List Statement) :=
  statements (depthFor tokens) (tokens.length + 1) (start tokens)

/-- A source that is one expression, perhaps with a semicolon after it. -/
def standalone (tokens : List (Located Token)) : Except SyntaxError Expr := do
  let (value, cursor) ← expression (depthFor tokens) (start tokens)
  let cursor := cursor.skip .semicolon
  if cursor.peek? = some .eof then return value
  else cursor.unexpected .endOfExpression

end Parse

end Formulary
