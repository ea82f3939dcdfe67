import Formulary.Machine.Load
import Formulary.Machine.Report
import Formulary.Source.Listing

namespace Formulary

/-!
# The command line

Loads one file and shows what its options ask for.  What a run writes is
computed from the arguments and the contents of the file alone.
-/

namespace Cli

/-- What the arguments ask for. -/
structure Options where
  file : String
  tokens : Bool := false
  tree : Bool := false
  listing : Bool := false
  source : Bool := false
  constants : Bool := false
  plain : Bool := false
  evals : List String := []
deriving Repr, DecidableEq, Inhabited

/-- Why arguments are refused. -/
inductive UsageFault where
  | noFile
  | unknown (argument : String)
  | noExpression
deriving Repr, DecidableEq

def UsageFault.message : UsageFault → String
  | .noFile => "a file to load is required"
  | .unknown argument => "unexpected argument '" ++ argument ++ "'"
  | .noExpression => "an expression is required after '--eval'"

/-- What one argument adds to the options. -/
def Options.with (options : Options) : String → Option Options
  | "--tokens" => some { options with tokens := true }
  | "--ast" => some { options with tree := true }
  | "--bc" => some { options with listing := true }
  | "--dump" => some { options with source := true }
  | "--constants" => some { options with constants := true }
  | "--no-color" => some { options with plain := true }
  | _ => none

/-- The expression of an argument that carries one. -/
def evalArgument? (argument : String) : Option String :=
  let mark := "--eval=".toList
  if argument.toList.take mark.length = mark then
    some (String.ofList (argument.toList.drop mark.length))
  else none

/--
Read arguments, given the options so far; `named` says whether the file has been
given.
-/
def readArguments
    (options : Options)
    (named : Bool) :
    List String → Except UsageFault Options
  | [] => if named then .ok options else .error .noFile
  | "--eval" :: [] => .error .noExpression
  | "--eval" :: expression :: rest =>
      readArguments
        { options with evals := options.evals ++ [expression] } named rest
  | argument :: rest =>
      match options.with argument, evalArgument? argument with
      | some options, _ => readArguments options named rest
      | none, some expression =>
          readArguments
            { options with evals := options.evals ++ [expression] } named rest
      | none, none =>
          if named || argument.toList.head? = some '-' then
            .error (.unknown argument)
          else readArguments { options with file := argument } true rest

/-- The options of a list of arguments. -/
def Options.ofArguments (arguments : List String) : Except UsageFault Options :=
  readArguments { file := "" } false arguments

/-- What a run writes, and the code it ends with. -/
structure Outcome where
  code : Nat
  stdout : String
  stderr : String
deriving Repr, DecidableEq, Inhabited

/-- A run that ended well. -/
def Outcome.shown (stdout : String) : Outcome :=
  ⟨0, stdout, ""⟩

/-- A run that failed before it wrote anything. -/
def Outcome.failed (context reason : String) : Outcome :=
  ⟨1, "", context ++ ": " ++ reason ++ "\n"⟩

/-- The tokens of a source. -/
def showTokens (options : Options) (source : String) : Outcome :=
  match Token.scan source with
  | .error error => .failed "Lexer error" error.message
  | .ok tokens => .shown (TokenListing.write ⟨!options.plain, false⟩ tokens)

/-- The tree of a source. -/
def showTree (source : String) : Outcome :=
  match Token.scan source with
  | .error error => .failed "Lexer error" error.message
  | .ok tokens =>
      match Parse.program tokens with
      | .error error => .failed "Parse error" error.message
      | .ok program =>
          .shown (Text.unlines (Outline.ofStatements program).lines)

/-- Evaluate expressions one after the other; errors do not stop the rest. -/
def showEvals (machine : Machine) : List String → Outcome
  | [] => .shown ""
  | expression :: rest =>
      match Machine.eval expression machine with
      | .ok value machine =>
          let others := showEvals machine rest
          { others with stdout :=
            expression ++ " => " ++ value.text ++ "\n" ++ others.stdout }
      | .error error machine =>
          let others := showEvals machine rest
          { others with
            code := 1
            stderr :=
              "Eval error in '" ++ expression ++ "': " ++ error.message ++
                "\n" ++ others.stderr }

/--
What is asked for of a loaded machine, after what it printed while loading.
-/
def showMachine (options : Options) (machine : Machine) : Outcome :=
  let printed := Text.unlines (machine.printed.map Value.text)
  let listing := if options.listing then machine.listing else ""
  let source := if options.source then machine.source else ""
  let (constants, machine) :=
    if options.constants then machine.constants else ("", machine)
  let evals := showEvals machine options.evals
  { evals with stdout :=
    printed ++ listing ++ source ++ constants ++ evals.stdout }

/-- Load a source and show what is asked for. -/
def showSource (options : Options) (source : String) : Outcome :=
  if options.tokens then showTokens options source
  else if options.tree then showTree source
  else
    match Machine.load .replace options.file source (Machine.ofConfig {}) with
    | .error error _ => .failed "Config error" error.message
    | .ok () machine => showMachine options machine

/-- A run on the contents of the file, if it could be read. -/
def run (options : Options) (contents : Except FileFault String) : Outcome :=
  match contents with
  | .error fault =>
      .failed ("Failed to read '" ++ options.file ++ "'") fault.message
  | .ok source => showSource options source

end Cli

end Formulary
