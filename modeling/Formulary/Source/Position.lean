namespace Formulary

/-!
# Positions in source text

Lines and columns count from one.  Columns count characters, and only a line
feed starts a new line.
-/

/-- A place in source text. -/
structure Position where
  line : Nat
  column : Nat
deriving Repr, DecidableEq, Inhabited

namespace Position

/-- The first character of a text. -/
def start : Position :=
  ⟨1, 1⟩

/-- The position after a character. -/
def step (position : Position) (c : Char) : Position :=
  if c = '\n' then ⟨position.line + 1, 1⟩
  else ⟨position.line, position.column + 1⟩

/-- The position after a text. -/
def advance (position : Position) (text : List Char) : Position :=
  text.foldl step position

/-- The position in front of a message. -/
def text (position : Position) : String :=
  toString position.line ++ ":" ++ toString position.column

end Position

/-- Something found at a position. -/
structure Located (α : Type) where
  position : Position
  item : α
deriving Repr, DecidableEq

end Formulary
