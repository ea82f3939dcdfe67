import Formulary.Source.Lexeme

namespace Formulary

/-!
# Scanning

A source text is cut into lexemes from the left, blanks between them being
skipped.  The last token marks the end of the text.
-/

/-- A malformed lexeme and its place. -/
structure LexError where
  fault : LexFault
  position : Position
deriving Repr, DecidableEq

def LexError.message (error : LexError) : String :=
  error.position.text ++ ": " ++ error.fault.message

namespace Token

/-- The tokens of a text that starts at a given position. -/
def scanFrom
    (position : Position) :
    List Char → Except LexError (List (Located Token))
  | [] => .ok [⟨position, .eof⟩]
  | c :: rest =>
      if Text.isBlank c then scanFrom (position.step c) rest
      else
        match Lexeme.read c rest with
        | .error issue =>
            .error
              ⟨issue.fault, position.advance ((c :: rest).take issue.offset)⟩
        | .ok lexeme =>
            let next := position.advance (c :: rest.take lexeme.more)
            match scanFrom next (rest.drop lexeme.more) with
            | .ok tokens => .ok (⟨position, lexeme.token⟩ :: tokens)
            | .error error => .error error
termination_by text => text.length
decreasing_by all_goals (simp only [List.length_cons, List.length_drop]; omega)

/-- The tokens of a text, comments included. -/
def scan (source : String) : Except LexError (List (Located Token)) :=
  scanFrom Position.start source.toList

/-- The tokens without comments. -/
def clean (tokens : List (Located Token)) : List (Located Token) :=
  tokens.filter fun token => !token.item.isComment

end Token

end Formulary
