import Formulary.Text.Escaped

namespace Formulary.Text

/-!
# Outlines

Nested values are shown in listings as labelled tuples, records and lists,
either on one line or spread out with one item per line.
-/

/-- The shape of a shown value. -/
inductive Outline where
  | atom (text : String)
  /-- Items in parentheses after a label, which may be empty. -/
  | tuple (label : String) (items : List Outline)
  /-- Named fields in braces after a label. -/
  | record (label : String) (fields : List (String × Outline))
  /-- Items in brackets. -/
  | list (items : List Outline)
deriving Inhabited

namespace Outline

/-- A shown string. -/
def string (text : String) : Outline :=
  .atom (escape text)

/-- A shown natural number. -/
def nat (n : Nat) : Outline :=
  .atom (toString n)

mutual

/-- The outline on one line. -/
def inline : Outline → String
  | .atom text => text
  | .tuple label items =>
      label ++ "(" ++ ", ".intercalate (inlineItems items) ++ ")"
  | .record label fields =>
      label ++ " \x7b " ++ ", ".intercalate (inlineFields fields) ++ " \x7d"
  | .list items => "[" ++ ", ".intercalate (inlineItems items) ++ "]"

/-- Every item on one line. -/
def inlineItems : List Outline → List String
  | [] => []
  | item :: rest => item.inline :: inlineItems rest

/-- Every field on one line. -/
def inlineFields : List (String × Outline) → List String
  | [] => []
  | (name, value) :: rest => (name ++ ": " ++ value.inline) :: inlineFields rest

end

/-- A block of lines, moved four columns to the right. -/
def indent (lines : List String) : List String :=
  lines.map fun line => "    " ++ line

mutual

/--
The outline spread over lines, with text before its first and after its last
line.
-/
def spread (lead trail : String) : Outline → List String
  | .atom text => [lead ++ text ++ trail]
  | .tuple label items =>
      (lead ++ label ++ "(") :: indent (spreadItems items) ++ [")" ++ trail]
  | .record label fields =>
      (lead ++ label ++ " \x7b") :: indent (spreadFields fields) ++
        ["\x7d" ++ trail]
  | .list [] => [lead ++ "[]" ++ trail]
  | .list (item :: rest) =>
      (lead ++ "[") :: indent (item.spread "" "," ++ spreadItems rest) ++
        ["]" ++ trail]

/-- Every item on lines of its own, with a comma after it. -/
def spreadItems : List Outline → List String
  | [] => []
  | item :: rest => item.spread "" "," ++ spreadItems rest

/-- Every field on lines of its own, with a comma after it. -/
def spreadFields : List (String × Outline) → List String
  | [] => []
  | (name, value) :: rest =>
      value.spread (name ++ ": ") "," ++ spreadFields rest

end

/-- The outline spread over lines. -/
def lines (outline : Outline) : List String :=
  outline.spread "" ""

end Outline

end Formulary.Text
