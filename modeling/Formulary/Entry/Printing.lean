import Formulary.Cell.Formula
import Formulary.Cell.Listing
import Formulary.Entry

namespace Formulary

/-!
# Entries as text

An entry is written either as the declaration it came from or as a listing of
its programs.
-/

open Text

namespace Entry

/-- A breakpoint as it is declared. -/
def pointText (point : Point) : String :=
  "(" ++ NumberLayout.marked.write point.x ++ ", " ++
    NumberLayout.marked.write point.y ++ ")"

/-- A list of numbers in brackets, one pair of brackets each. -/
def subscripts (numbers : List Nat) : String :=
  String.join (numbers.map fun n => "[" ++ toString n ++ "]")

/-- The declaration of an entry. -/
def declaration (entry : Entry) : String :=
  match entry.definition with
  | .scalar code => entry.name ++ " = " ++ Code.formula code ++ ";"
  | .function params body =>
      entry.name ++ "(" ++ ", ".intercalate params ++ ") = " ++
        Code.formula body ++ ";"
  | .array grid =>
      entry.name ++ subscripts grid.dims ++ " = ["
        ++ ", ".intercalate (grid.elements.toList.map Code.formula) ++ "];"
  | .curve curve =>
      entry.name ++ " = \x7b" ++
        " ".intercalate (curve.points.map pointText) ++ "\x7d;"

/-- The rule above and below a title. -/
def rule : String :=
  "".pushn '═' 40

/-- The name of an entry, with the parameters of a function. -/
def title (entry : Entry) : String :=
  match entry.definition with
  | .function params _ => entry.name ++ "(" ++ ", ".intercalate params ++ ")"
  | _ => entry.name

/-- How large the definition is. -/
def sizeText (entry : Entry) : String :=
  match entry.definition with
  | .scalar code | .function _ code => toString code.length ++ " cells"
  | .array grid =>
      toString grid.elements.size ++ " elements, dims "
        ++ "x".intercalate (grid.dims.map toString)
  | .curve curve => toString curve.points.length ++ " points"

/-- The elements of an array, from a given offset on. -/
def elementListing (grid : Grid) (offset : Nat) : List Code → String
  | [] => ""
  | code :: rest =>
      subscripts (grid.indicesAt offset) ++ ":\n" ++ Code.listing 1 code
        ++ elementListing grid (offset + 1) rest

/-- The breakpoints of a table, from a given index on. -/
def pointListing (index : Nat) : List Point → List String
  | [] => []
  | point :: rest =>
      (zeroPadded 4 index ++ "  POINT       " ++ pointText point) ::
        pointListing (index + 1) rest

/-- The programs or breakpoints of an entry. -/
def contents (entry : Entry) : String :=
  match entry.definition with
  | .scalar code | .function _ code => Code.listing 0 code
  | .array grid => elementListing grid 0 grid.elements.toList
  | .curve curve => unlines (pointListing 0 curve.points)

/-- The listing of an entry under its title. -/
def listing (entry : Entry) : String :=
  unlines [rule, " " ++ entry.title ++ " (" ++ entry.kind.name ++ ")",
    " " ++ entry.sizeText, rule] ++ entry.contents ++ "\n"

/-- The listings of several entries. -/
def listings (entries : List Entry) : String :=
  "=== BYTECODE ===\n\n" ++ String.join (entries.map listing)

end Entry

end Formulary
