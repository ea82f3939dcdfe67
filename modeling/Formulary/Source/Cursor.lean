import Formulary.Source.Scan

namespace Formulary

/-!
# Reading tokens

A cursor walks over the tokens of a source.  It remembers the position of the
token read last, where faults at the end of the text are reported.
-/

/-- What the parser would have accepted. -/
inductive Expected where
  | expression
  | endOfExpression
  | statementName
  | afterName
  | endOfStatement
  | endOfPrint
  | assignAfterParams
  | assignAfterSubscript
  | paramName
  | closeParams
  | closeSubscript
  | closeArguments
  | closeParen
  | commaOr (close : Mark)
  | openPoint
  | commaInPoint
  | closePoint
  | pointOrClose
deriving Repr, DecidableEq

def Expected.text : Expected → String
  | .expression => "an expression"
  | .endOfExpression => "end of expression"
  | .statementName => "a name at the start of a statement"
  | .afterName => "'=', '(' or '[' after name"
  | .endOfStatement => "';' at end of statement"
  | .endOfPrint => "';' after print statement"
  | .assignAfterParams => "'=' after function parameters"
  | .assignAfterSubscript => "'=' after array subscript"
  | .paramName => "a parameter name"
  | .closeParams => "')' after parameters"
  | .closeSubscript => "']' after subscript"
  | .closeArguments => "')' after arguments"
  | .closeParen => "')'"
  | .commaOr close => "',' or '" ++ close.symbol ++ "'"
  | .openPoint => "'(' to start a point"
  | .commaInPoint => "',' between point coordinates"
  | .closePoint => "')' to close a point"
  | .pointOrClose => "'(' or '\x7d'"

/-- Why a list of tokens is not a program. -/
inductive SyntaxFault where
  | unexpectedToken (found : Token) (expected : Expected)
  | unexpectedEnd (expected : Expected)
  | chainedComparison
  | emptyInitializer
  | sizedPoints
deriving Repr, DecidableEq

def SyntaxFault.message : SyntaxFault → String
  | .unexpectedToken found expected =>
      "unexpected token '" ++ found.text ++ "', expected " ++ expected.text
  | .unexpectedEnd expected => "unexpected EOF, expected " ++ expected.text
  | .chainedComparison => "comparison operators cannot be chained"
  | .emptyInitializer => "array initializer must have at least one element"
  | .sizedPoints => "a sized array cannot be initialized with points"

/-- A fault and its place. -/
structure SyntaxError where
  fault : SyntaxFault
  position : Position
deriving Repr, DecidableEq

def SyntaxError.message (error : SyntaxError) : String :=
  error.position.text ++ ": " ++ error.fault.message

/-- The tokens still to be read, and the position of the one read last. -/
structure Cursor where
  rest : List (Located Token)
  last : Option Position
deriving Repr, DecidableEq

namespace Cursor

/-- The next token. -/
def peek? (cursor : Cursor) : Option Token :=
  cursor.rest.head?.map Located.item

/-- Step over the next token. -/
def advance (cursor : Cursor) : Cursor :=
  match cursor.rest with
  | [] => cursor
  | token :: rest => ⟨rest, some token.position⟩

/-- Position of the next token, or of the last one. -/
def here (cursor : Cursor) : Position :=
  ((cursor.rest.head?.map Located.position) <|> cursor.last).getD Position.start

/--
Position of a fault: the next token, or the last one when the text has ended.
-/
def faultPosition (cursor : Cursor) : Position :=
  match cursor.rest with
  | ⟨_, .eof⟩ :: _ | [] => cursor.last.getD Position.start
  | token :: _ => token.position

def fail (cursor : Cursor) (fault : SyntaxFault) : Except SyntaxError α :=
  .error ⟨fault, cursor.faultPosition⟩

/-- Refuse the next token. -/
def unexpected (cursor : Cursor) (expected : Expected) : Except SyntaxError α :=
  match cursor.peek? with
  | none | some .eof => cursor.fail (.unexpectedEnd expected)
  | some token => cursor.fail (.unexpectedToken token expected)

/-- Whether the next token is a given mark. -/
def at? (cursor : Cursor) (mark : Mark) : Bool :=
  cursor.peek? = some (.mark mark)

/-- Step over a mark, which must come next. -/
def expect
    (cursor : Cursor)
    (mark : Mark)
    (expected : Expected) :
    Except SyntaxError Cursor :=
  if cursor.at? mark then .ok cursor.advance else cursor.unexpected expected

/-- Step over a mark if it comes next. -/
def skip (cursor : Cursor) (mark : Mark) : Cursor :=
  if cursor.at? mark then cursor.advance else cursor

/-- Read a name, which must come next. -/
def expectName
    (cursor : Cursor)
    (expected : Expected) :
    Except SyntaxError (String × Cursor) :=
  match cursor.peek? with
  | some (.name name) => .ok (name, cursor.advance)
  | _ => cursor.unexpected expected

/-- The operator that comes next, if it belongs to a class. -/
def operator? (cursor : Cursor) (belongs : BinaryOp → Bool) : Option BinaryOp :=
  match cursor.peek? with
  | some (.operator op) => if belongs op then some op else none
  | _ => none

end Cursor

end Formulary
