import Formulary.Entry.Printing
import Formulary.Machine.Basic

namespace Formulary

/-!
# Reports of a machine

The entries written back as source, as program listings, or as the constants
they evaluate to.
-/

namespace Machine

open Text

/-- Every entry as its declaration. -/
def source (machine : Machine) : String :=
  unlines (machine.entries.map Entry.declaration)

/-- Every entry as a listing of its programs. -/
def listing (machine : Machine) : String :=
  Entry.listings machine.entries

/-- A scalar as its value, or as a comment with the first line of its error. -/
def constantLine (entry : Entry) (machine : Machine) : String × Machine :=
  match valueOf entry machine with
  | .ok result machine =>
      (entry.name ++ " = " ++ result.literal ++ ";", machine)
  | .error error machine =>
      ("// " ++ entry.name ++ ": " ++ firstLine error.message, machine)

/-- The lines of several scalars, evaluated one after the other. -/
def constantLines (machine : Machine) : List Entry → List String × Machine
  | [] => ([], machine)
  | entry :: rest =>
      let (line, machine) := constantLine entry machine
      let (lines, machine) := constantLines machine rest
      (line :: lines, machine)

/-- Every scalar as its value. -/
def constants (machine : Machine) : String × Machine :=
  let (lines, machine) :=
    machine.constantLines (machine.entries.filter Entry.isScalar)
  (unlines lines, machine)

end Machine

end Formulary
