import Formulary.Operator
import Formulary.Source.Position
import Formulary.Value

namespace Formulary

/-!
# Tokens

The words of source text.
-/

/-- Punctuation and brackets. -/
inductive Mark where
  | assign
  | semicolon
  | comma
  | openParen
  | closeParen
  | openBracket
  | closeBracket
  | openBrace
  | closeBrace
deriving Repr, DecidableEq, Inhabited

def Mark.symbol : Mark → String
  | .assign => "="
  | .semicolon => ";"
  | .comma => ","
  | .openParen => "("
  | .closeParen => ")"
  | .openBracket => "["
  | .closeBracket => "]"
  | .openBrace => "\x7b"
  | .closeBrace => "\x7d"

/-- A word of source text. -/
inductive Token where
  | literal (value : Value)
  | operator (op : BinaryOp)
  | mark (punctuation : Mark)
  | print
  | name (spelling : String)
  | comment (text : String)
  | eof
deriving Repr, DecidableEq, Inhabited

namespace Token

def isOperator : Token → Bool
  | .operator _ => true
  | _ => false

def isComment : Token → Bool
  | .comment _ => true
  | _ => false

/-- The token as messages show it; strings keep their characters as they are. -/
def text : Token → String
  | .literal (.string text) => "\"" ++ text ++ "\""
  | .literal value => value.text
  | .operator op => op.symbol
  | .mark punctuation => punctuation.symbol
  | .print => "print"
  | .name spelling => spelling
  | .comment text => "// " ++ text
  | .eof => "EOF"

end Token

end Formulary
