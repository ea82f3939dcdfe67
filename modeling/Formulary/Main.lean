import Formulary.Cli

namespace Formulary

/-!
# The program

Reads the arguments and the file, and writes what the command line computes.
-/

/-- The contents of a file as text. -/
def readContents (file : String) : IO (Except FileFault String) := do
  try
    let bytes ← IO.FS.readBinFile file
    match String.fromUTF8? bytes with
    | some text => return .ok text
    | none => return .error .notText
  catch
    | .noFileOrDirectory .. => return .error .missing
    | other => return .error (.stated (toString other))

end Formulary

open Formulary

def main (arguments : List String) : IO UInt32 := do
  match Cli.Options.ofArguments arguments with
  | .error fault =>
      IO.eprintln ("error: " ++ fault.message)
      return 2
  | .ok options =>
      let outcome := Cli.run options (← readContents options.file)
      IO.print outcome.stdout
      IO.eprint outcome.stderr
      return UInt32.ofNat outcome.code
