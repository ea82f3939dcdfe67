import Formulary.Source.Scan
import Mathlib.Data.Nat.Digits.Defs

namespace Formulary

/-!
# The lexical grammar

How a source text is cut into lexemes.  The first one or two characters of a
lexeme fix its kind, and the lexeme is the longest one of its kind.  What a
lexeme means is a number, a text or a word, whatever its size; it is well formed
when a token holds that meaning.

The grammar says which lexemes there are and nothing about how they are found.
-/

namespace Lexical

/-- The kinds of lexemes. -/
inductive Kind where
  | lineComment
  | blockComment
  | string
  | hexInteger
  | decimal
  /-- A name or a keyword. -/
  | word
  /-- An operator or a mark. -/
  | symbol
deriving Repr, DecidableEq

/-- Whether a text starts with a digit, or with a point and a digit. -/
def startsNumber (text : List Char) : Bool :=
  text.head?.any Char.isDigit ||
    (text.head? = some '.' && text.tail.head?.any Char.isDigit)

/-- Whether a text starts with a letter or an underscore. -/
def startsWord (text : List Char) : Bool :=
  text.head?.any fun c => c.isAlpha || c = '_'

/-- The kind of the lexeme at the front of a text. -/
def kindOf (text : List Char) : Kind :=
  if ['/', '/'] <+: text then .lineComment
  else if ['/', '*'] <+: text then .blockComment
  else if ['"'] <+: text then .string
  else if ['0', 'x'] <+: text ∨ ['0', 'X'] <+: text then .hexInteger
  else if startsNumber text then .decimal
  else if startsWord text then .word
  else .symbol

/-- The marks of escapes and the characters they stand for. -/
def escapes : List (Char × Char) :=
  [('n', '\n'), ('t', '\t'), ('r', '\r'), ('\\', '\\'), ('"', '"')]

/-- What stands between quotes, and the text it stands for. -/
inductive Quotes : List Char → List Char → Prop where
  | nil : Quotes [] []
  | plain
      {c : Char}
      {spelled text : List Char} :
      c ∉ ['"', '\\', '\n'] →
      Quotes spelled text →
      Quotes (c :: spelled) (c :: text)
  | escape
      {mark c : Char}
      {spelled text : List Char} :
      (mark, c) ∈ escapes →
      Quotes spelled text →
      Quotes ('\\' :: mark :: spelled) (c :: text)

/-- Digits in the order of their values. -/
def hexDigits : List Char :=
  ['0', '1', '2', '3', '4', '5', '6', '7', '8', '9', 'a', 'b', 'c', 'd', 'e',
    'f']

/-- The value of a digit, capital letters being taken for small ones. -/
def digitValue (c : Char) : Nat :=
  hexDigits.idxOf c.toLower

/-- The number written by digits to a base. -/
def valueOf (base : Nat) (digits : List Char) : Nat :=
  Nat.ofDigits base (digits.reverse.map digitValue)

/-- A fraction as it is written, its point included. -/
inductive FractionSpelled : Option (List Char) → List Char → Prop where
  | absent : FractionSpelled none []
  | present
      {digits : List Char} :
      (∀ c ∈ digits, c.isDigit = true) →
      FractionSpelled (some digits) ('.' :: digits)

/-- An exponent as it is written, with at least one digit. -/
inductive ExponentSpelled : Option Lexeme.ExponentText → List Char → Prop where
  | absent : ExponentSpelled none []
  | present
      {mark : Char}
      {sign digits : List Char} :
      mark ∈ ['e', 'E'] →
      sign ∈ [[], ['+'], ['-']] →
      digits ≠ [] →
      (∀ c ∈ digits, c.isDigit = true) →
      ExponentSpelled (some ⟨sign, digits⟩) (mark :: (sign ++ digits))

/--
A decimal number as it is written, with at least one digit in front of its
exponent.
-/
inductive NumberSpelled : Lexeme.NumberText → List Char → Prop where
  | number
      {whole fractionText exponentText : List Char}
      {fraction : Option (List Char)}
      {exponent : Option Lexeme.ExponentText} :
      (∀ c ∈ whole, c.isDigit = true) →
      FractionSpelled fraction fractionText →
      ExponentSpelled exponent exponentText →
      whole ++ fraction.getD [] ≠ [] →
      NumberSpelled ⟨whole, fraction, exponent⟩
        (whole ++ (fractionText ++ exponentText))

/-- Operators and marks. -/
def symbols : List (List Char × Token) :=
  [(['=', '='], .operator .eq), (['!', '='], .operator .ne),
   (['<', '='], .operator .le), (['>', '='], .operator .ge),
   (['+'], .operator .add), (['-'], .operator .sub), (['*'], .operator .mul),
   (['/'], .operator .div), (['^'], .operator .pow), (['<'], .operator .lt),
   (['>'], .operator .gt), (['='], .mark .assign), ([';'], .mark .semicolon),
   ([','], .mark .comma), (['('], .mark .openParen), ([')'], .mark .closeParen),
   (['['], .mark .openBracket), ([']'], .mark .closeBracket),
   (['\x7b'], .mark .openBrace), (['\x7d'], .mark .closeBrace)]

/-- Words that are not names. -/
def keywords : List (List Char × Token) :=
  [(['t', 'r', 'u', 'e'], .literal (.bool true)),
   (['f', 'a', 'l', 's', 'e'], .literal (.bool false)),
   (['p', 'r', 'i', 'n', 't'], .print)]

/-- What a lexeme means. -/
inductive Meaning where
  | comment (text : List Char)
  | string (text : List Char)
  | integer (n : Nat)
  | float (number : Lexeme.NumberText)
  | word (spelling : List Char)
  | symbol (token : Token)

/-- A number with a fraction or an exponent is no integer. -/
def numberMeaning (number : Lexeme.NumberText) : Meaning :=
  if number.fraction = none ∧ number.exponent = none then
    .integer (valueOf 10 number.whole)
  else .float number

/-- The lexemes of a kind, and what they mean. -/
inductive Spells : Kind → List Char → Meaning → Prop where
  | lineComment
      {body : List Char} :
      '\n' ∉ body →
      Spells .lineComment ('/' :: '/' :: body) (.comment body)
  | blockComment
      {body : List Char} :
      ¬ ['*', '/'] <:+: body →
      Spells .blockComment ('/' :: '*' :: body ++ ['*', '/']) (.comment body)
  | string
      {spelled text : List Char} :
      Quotes spelled text →
      Spells .string ('"' :: spelled ++ ['"']) (.string text)
  | hexInteger
      {mark : Char}
      {digits : List Char} :
      mark ∈ ['x', 'X'] →
      digits ≠ [] →
      (∀ c ∈ digits, c.toLower ∈ hexDigits) →
      Spells .hexInteger ('0' :: mark :: digits) (.integer (valueOf 16 digits))
  | decimal
      {number : Lexeme.NumberText}
      {text : List Char} :
      NumberSpelled number text →
      Spells .decimal text (numberMeaning number)
  | word
      {first : Char}
      {others : List Char} :
      (first.isAlpha || first = '_') = true →
      (∀ c ∈ others, (c.isAlphanum || c = '_') = true) →
      Spells .word (first :: others) (.word (first :: others))
  | symbol
      {spelling : List Char}
      {token : Token} :
      (spelling, token) ∈ symbols →
      Spells .symbol spelling (.symbol token)

/-- Integers fit a signed word of 64 bits, and floats are finite. -/
def Meaning.WellFormed : Meaning → Prop
  | .integer n => n < 2 ^ 63
  | .float number => number.toDouble.isFinite = true
  | _ => True

/-- The token that holds a meaning. -/
inductive Meaning.Held : Meaning → Token → Prop where
  | comment
      {text : List Char} :
      Held (.comment text) (.comment (String.ofList (Text.trim text)))
  | string
      {text : List Char} :
      Held (.string text) (.literal (.string (String.ofList text)))
  | integer
      {n : Nat}
      {word : Int64} :
      word.toInt = n →
      Held (.integer n) (.literal (.int word))
  | float
      {number : Lexeme.NumberText} :
      number.toDouble.isFinite = true →
      Held (.float number) (.literal (.double number.toDouble))
  | word
      {spelling : List Char} :
      Held (.word spelling)
        ((keywords.lookup spelling).getD (.name (String.ofList spelling)))
  | symbol
      {token : Token} :
      Held (.symbol token) token

/-- The longest lexeme of a kind at the front of a text. -/
structure Longest
    (kind : Kind)
    (text lexeme : List Char)
    (meaning : Meaning) :
    Prop where
  starts : lexeme <+: text
  spells : Spells kind lexeme meaning
  longest :
    ∀ {other : List Char} {otherMeaning : Meaning},
      other <+: text → Spells kind other otherMeaning →
        other.length ≤ lexeme.length

/-- The place of the character behind a text. -/
def place (before : List Char) : Position :=
  ⟨1 + before.count '\n', 1 + (before.reverse.takeWhile (· ≠ '\n')).length⟩

/-- A lexeme and its token. -/
structure Piece where
  lexeme : List Char
  token : Located Token

/-- The pieces of a text that stands behind another one. -/
inductive Cut : List Char → List Char → List Piece → Prop where
  | done
      {before : List Char} :
      Cut before [] []
  | blank
      {c : Char}
      {before rest : List Char}
      {pieces : List Piece} :
      Text.isBlank c = true →
      Cut (before ++ [c]) rest pieces →
      Cut before (c :: rest) pieces
  | lexeme
      {first : Char}
      {before others rest : List Char}
      {meaning : Meaning}
      {token : Token}
      {pieces : List Piece} :
      Text.isBlank first = false →
      Longest (kindOf (first :: others ++ rest)) (first :: others ++ rest)
        (first :: others) meaning →
      meaning.Held token →
      Cut (before ++ first :: others) rest pieces →
      Cut before (first :: others ++ rest)
        (⟨first :: others, ⟨place before, token⟩⟩ :: pieces)

/-- What is left of a text behind blanks and lexemes, well formed or not. -/
inductive Reaches : List Char → List Char → Prop where
  | here
      {text : List Char} :
      Reaches text text
  | blank
      {c : Char}
      {rest later : List Char} :
      Text.isBlank c = true →
      Reaches rest later →
      Reaches (c :: rest) later
  | lexeme
      {first : Char}
      {others rest later : List Char}
      {meaning : Meaning} :
      Text.isBlank first = false →
      Longest (kindOf (first :: others ++ rest)) (first :: others ++ rest)
        (first :: others) meaning →
      Reaches rest later →
      Reaches (first :: others ++ rest) later

end Lexical

end Formulary
