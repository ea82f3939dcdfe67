import Formulary.Source.Outline
import Formulary.Text.Blank

namespace Formulary

/-!
# Token listings

One line per token: its position, its class, and its text or outline, perhaps
in colour.
-/

open Text

/-- How tokens are listed. -/
structure TokenListing where
  colored : Bool
  /-- Show the outline of a token in place of its text. -/
  outlined : Bool
deriving Repr, DecidableEq

namespace TokenListing

/-- The class of a token in a listing. -/
def className : Token → String
  | .comment _ => "COMMENT"
  | .eof => "EOF"
  | .literal (.int _) => "INT"
  | .literal (.double _) => "FLOAT"
  | .literal (.string _) => "STRING"
  | .literal (.bool _) => "BOOL"
  | .name _ => "IDENT"
  | .mark .openParen | .mark .closeParen => "PAREN"
  | .mark .openBracket | .mark .closeBracket => "BRACKET"
  | .mark .openBrace | .mark .closeBrace => "BRACE"
  | .operator op => if op.isComparison then "CMP" else "OP"
  | .mark .assign | .mark .semicolon | .mark .comma => "PUNCT"
  | .print => "KEYWORD"

/-- Switches a terminal back to its own colours. -/
def reset : String :=
  "\x1b[0m"

/-- Switches a terminal to the colour of a token. -/
def color : Token → String
  | .comment _ | .eof => "\x1b[2m"
  | .literal (.string _) => "\x1b[32m"
  | .literal _ => "\x1b[36m"
  | .name _ => "\x1b[33m"
  | .operator _ => "\x1b[35m"
  | _ => reset

/-- The last column of a line. -/
def description (listing : TokenListing) (token : Token) : String :=
  if listing.outlined then (Outline.ofToken token).inline
  else
    match token with
    | .comment text => "COMMENT: " ++ String.ofList (trim text.toList)
    | other => other.text

/-- One line. -/
def line (listing : TokenListing) (token : Located Token) : String :=
  let paint := if listing.colored then color token.item else ""
  let unpaint := if listing.colored then reset else ""
  "[" ++ zeroPadded 2 token.position.line ++ ":" ++
    zeroPadded 2 token.position.column ++ "] "
    ++ paint ++ padRight 8 (className token.item) ++ " " ++
      listing.description token.item ++ unpaint

/-- The listing of tokens. -/
def write (listing : TokenListing) (tokens : List (Located Token)) : String :=
  unlines (tokens.map listing.line)

end TokenListing

end Formulary
