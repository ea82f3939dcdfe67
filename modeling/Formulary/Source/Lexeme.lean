import Formulary.Number.Integer
import Formulary.Source.Token
import Formulary.Text.Blank
import Formulary.Text.Quoted

namespace Formulary

/-!
# Lexemes

The first one or two characters of a lexeme fix its class, and the lexeme is
the longest one of its class.  A reader is given the first character and what
follows it, and answers with the token and the number of characters after the
first one that belong to it.
-/

/-- Why a lexeme is malformed. -/
inductive LexFault where
  | unterminatedComment
  | unknownEscape (mark : Char)
  | endInEscape
  | lineBreakInString
  | unterminatedString
  | missingHexDigits
  | hexTooLarge (digits : String)
  | integerTooLarge (digits : String)
  | floatTooLarge (text : String)
  | unexpectedCharacter (c : Char)
deriving Repr, DecidableEq

def LexFault.message : LexFault → String
  | .unterminatedComment => "unterminated block comment"
  | .unknownEscape mark => "unknown escape sequence: \\" ++ mark.toString
  | .endInEscape => "unexpected EOF in escape sequence"
  | .lineBreakInString => "unterminated string (newline before closing quote)"
  | .unterminatedString => "unterminated string literal"
  | .missingHexDigits => "expected hex digits after 0x"
  | .hexTooLarge digits => "invalid hex number: 0x" ++ digits
  | .integerTooLarge digits => "invalid integer: " ++ digits
  | .floatTooLarge text => "float out of range: " ++ text
  | .unexpectedCharacter c => "unexpected character: '" ++ c.toString ++ "'"

/-- A token and the number of characters after its first one. -/
structure Lexeme where
  token : Token
  more : Nat
deriving Repr, DecidableEq

/-- A fault and its distance from the first character of the lexeme. -/
structure LexIssue where
  fault : LexFault
  offset : Nat
deriving Repr, DecidableEq

/-- A fault of the lexeme as a whole. -/
def LexFault.whole (fault : LexFault) : LexIssue :=
  ⟨fault, 0⟩

namespace Lexeme

open Text

/--
The comment from two slashes to the end of the line, given what follows the
slashes.
-/
def lineComment (body : List Char) : Lexeme :=
  let text := body.takeWhile (· ≠ '\n')
  ⟨.comment (String.ofList (trim text)), text.length + 1⟩

/-- The text before the first `*/`. -/
def commentBody? : List Char → Option (List Char)
  | [] => none
  | '*' :: '/' :: _ => some []
  | c :: rest => (commentBody? rest).map (c :: ·)

/-- The comment between `/*` and `*/`, given what follows the opening. -/
def blockComment (body : List Char) : Except LexIssue Lexeme :=
  match commentBody? body with
  | some text => .ok ⟨.comment (String.ofList (trim text)), text.length + 3⟩
  | none => .error LexFault.unterminatedComment.whole

/-- One more character in front of a string that has been read. -/
def consChar
    (c : Char) :
    Except LexIssue (List Char × Nat) → Except LexIssue (List Char × Nat)
  | .ok (text, more) => .ok (c :: text, more)
  | .error issue => .error issue

/--
The characters up to the closing quote and the distance of that quote from the
opening one, given the distance of the next character.
-/
def stringBody (offset : Nat) : List Char → Except LexIssue (List Char × Nat)
  | [] => .error LexFault.unterminatedString.whole
  | '"' :: _ => .ok ([], offset)
  | '\n' :: _ => .error LexFault.lineBreakInString.whole
  | ['\\'] => .error ⟨.endInEscape, offset + 1⟩
  | '\\' :: mark :: rest =>
      match unescape? mark with
      | some c => consChar c (stringBody (offset + 2) rest)
      | none => .error ⟨.unknownEscape mark, offset + 1⟩
  | c :: rest => consChar c (stringBody (offset + 1) rest)

/-- The string after an opening quote. -/
def string (body : List Char) : Except LexIssue Lexeme :=
  match stringBody 1 body with
  | .ok (text, more) => .ok ⟨.literal (.string (String.ofList text)), more⟩
  | .error issue => .error issue

/-- The value of a hexadecimal digit. -/
def hexDigitValue? (c : Char) : Option Nat :=
  if '0' ≤ c ∧ c ≤ '9' then some (c.toNat - '0'.toNat)
  else if 'a' ≤ c ∧ c ≤ 'f' then some (c.toNat - 'a'.toNat + 10)
  else if 'A' ≤ c ∧ c ≤ 'F' then some (c.toNat - 'A'.toNat + 10)
  else none

def isHexDigit (c : Char) : Bool :=
  (hexDigitValue? c).isSome

/-- The number written by hexadecimal digits. -/
def hexValue (digits : List Char) : Nat :=
  digits.foldl (fun value digit => 16 * value + (hexDigitValue? digit).getD 0) 0

/-- The integer token of a literal, which has no sign. -/
def integer
    (n : Nat)
    (fault : LexFault)
    (more : Nat) :
    Except LexIssue Lexeme :=
  match checkedInt n with
  | some word => .ok ⟨.literal (.int word), more⟩
  | none => .error fault.whole

/-- The hexadecimal integer after `0x`. -/
def hexInteger (body : List Char) : Except LexIssue Lexeme :=
  let digits := body.takeWhile isHexDigit
  if digits.isEmpty then .error LexFault.missingHexDigits.whole
  else integer (hexValue digits) (.hexTooLarge (String.ofList digits))
    (digits.length + 1)

/-- The exponent of a decimal number: its sign, if written, and its digits. -/
structure ExponentText where
  sign : List Char
  digits : List Char
deriving Repr, DecidableEq

/-- The exponent at the front of a text; it needs at least one digit. -/
def exponentText? : List Char → Option ExponentText
  | mark :: rest =>
      if mark = 'e' ∨ mark = 'E' then
        let sign := (rest.take 1).filter fun c => c = '+' ∨ c = '-'
        let digits := (rest.drop sign.length).takeWhile Char.isDigit
        if digits.isEmpty then none else some ⟨sign, digits⟩
      else none
  | [] => none

/-- The parts of a decimal number. -/
structure NumberText where
  whole : List Char
  fraction : Option (List Char)
  exponent : Option ExponentText
deriving Repr, DecidableEq

namespace NumberText

/-- The longest decimal number at the front of a text. -/
def ofText (text : List Char) : NumberText :=
  let whole := text.takeWhile Char.isDigit
  let (fraction, rest) :=
    match text.dropWhile Char.isDigit with
    | '.' :: rest =>
        (some (rest.takeWhile Char.isDigit), rest.dropWhile Char.isDigit)
    | rest => (none, rest)
  ⟨whole, fraction, exponentText? rest⟩

/-- The number as it is written, with a small exponent mark. -/
def spelled (number : NumberText) : List Char :=
  number.whole
    ++ (match number.fraction with
        | some digits => '.' :: digits
        | none => [])
    ++ (match number.exponent with
        | some ⟨sign, digits⟩ => 'e' :: (sign ++ digits)
        | none => [])

def exponentValue (number : NumberText) : Int :=
  match number.exponent with
  | some ⟨sign, digits⟩ =>
      if sign = ['-'] then -(Decimal.ofDigits digits : Int)
      else Decimal.ofDigits digits
  | none => 0

/-- The double nearest to the number. -/
def toDouble (number : NumberText) : Double :=
  (Decimal.ofParts number.whole (number.fraction.getD [])
    number.exponentValue).toDouble false

/-- A number without fraction and exponent is an integer. -/
def isInteger (number : NumberText) : Bool :=
  number.fraction.isNone && number.exponent.isNone

end NumberText

/-- The decimal number at the front of a text. -/
def decimal (text : List Char) : Except LexIssue Lexeme :=
  let number := NumberText.ofText text
  let more := number.spelled.length - 1
  if number.isInteger then
    integer (Decimal.ofDigits number.whole)
      (.integerTooLarge (String.ofList number.spelled)) more
  else
    let x := number.toDouble
    if x.isFinite then .ok ⟨.literal (.double x), more⟩
    else .error (LexFault.floatTooLarge (String.ofList number.spelled)).whole

def isNameStart (c : Char) : Bool :=
  c.isAlpha || c = '_'

def isNameChar (c : Char) : Bool :=
  c.isAlphanum || c = '_'

/-- The keyword or name of a spelling. -/
def word (spelling : String) : Token :=
  if spelling = "true" then .literal (.bool true)
  else if spelling = "false" then .literal (.bool false)
  else if spelling = "print" then .print
  else .name spelling

/-- The keyword or name that starts with a character. -/
def name (first : Char) (rest : List Char) : Lexeme :=
  let others := rest.takeWhile isNameChar
  ⟨word (String.ofList (first :: others)), others.length⟩

/--
The operator or mark at the front of a text, two characters wide if possible.
-/
def symbol (first : Char) (rest : List Char) : Except LexIssue Lexeme :=
  match first, rest with
  | '=', '=' :: _ => .ok ⟨.operator .eq, 1⟩
  | '!', '=' :: _ => .ok ⟨.operator .ne, 1⟩
  | '<', '=' :: _ => .ok ⟨.operator .le, 1⟩
  | '>', '=' :: _ => .ok ⟨.operator .ge, 1⟩
  | '+', _ => .ok ⟨.operator .add, 0⟩
  | '-', _ => .ok ⟨.operator .sub, 0⟩
  | '*', _ => .ok ⟨.operator .mul, 0⟩
  | '/', _ => .ok ⟨.operator .div, 0⟩
  | '^', _ => .ok ⟨.operator .pow, 0⟩
  | '<', _ => .ok ⟨.operator .lt, 0⟩
  | '>', _ => .ok ⟨.operator .gt, 0⟩
  | '=', _ => .ok ⟨.mark .assign, 0⟩
  | ';', _ => .ok ⟨.mark .semicolon, 0⟩
  | ',', _ => .ok ⟨.mark .comma, 0⟩
  | '(', _ => .ok ⟨.mark .openParen, 0⟩
  | ')', _ => .ok ⟨.mark .closeParen, 0⟩
  | '[', _ => .ok ⟨.mark .openBracket, 0⟩
  | ']', _ => .ok ⟨.mark .closeBracket, 0⟩
  | '\x7b', _ => .ok ⟨.mark .openBrace, 0⟩
  | '\x7d', _ => .ok ⟨.mark .closeBrace, 0⟩
  | other, _ => .error (LexFault.unexpectedCharacter other).whole

/-- What the first characters of a lexeme say about it. -/
inductive Class where
  | lineComment (body : List Char)
  | blockComment (body : List Char)
  | string (body : List Char)
  | hexInteger (body : List Char)
  | decimal
  | name
  | symbol
deriving Repr, DecidableEq

/-- The class of the lexeme that starts with a character. -/
def classOf (first : Char) (rest : List Char) : Class :=
  match first, rest with
  | '/', '/' :: body => .lineComment body
  | '/', '*' :: body => .blockComment body
  | '"', body => .string body
  | '0', 'x' :: body => .hexInteger body
  | '0', 'X' :: body => .hexInteger body
  | '.', next :: _ => if next.isDigit then .decimal else .symbol
  | _, _ =>
      if first.isDigit then .decimal
      else if isNameStart first then .name
      else .symbol

/-- The lexeme that starts with a character. -/
def read (first : Char) (rest : List Char) : Except LexIssue Lexeme :=
  match classOf first rest with
  | .lineComment body => .ok (lineComment body)
  | .blockComment body => blockComment body
  | .string body => string body
  | .hexInteger body => hexInteger body
  | .decimal => decimal (first :: rest)
  | .name => .ok (name first rest)
  | .symbol => symbol first rest

end Lexeme

end Formulary
