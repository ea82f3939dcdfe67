import Formulary.Compile.Diagnostic
import Formulary.Source.Cursor

namespace Formulary

/-!
# Errors

Everything that can go wrong when a machine is loaded, evaluated or restored.
-/

/-- What is wrong with a source. -/
inductive SourceFault where
  | lexical (fault : LexFault)
  | grammatical (fault : SyntaxFault)
  | compile (fault : CompileFault)
deriving Repr, DecidableEq

def SourceFault.message : SourceFault → String
  | .lexical fault => "lex error: " ++ fault.message
  | .grammatical fault => "syntax error: " ++ fault.message
  | .compile fault => fault.message

/-- A fault in a source and its place; the file only labels it. -/
structure SourceError where
  file : String
  position : Position
  fault : SourceFault
deriving Repr, DecidableEq

namespace SourceError

def ofLexError (file : String) (error : LexError) : SourceError :=
  ⟨file, error.position, .lexical error.fault⟩

def ofSyntaxError (file : String) (error : SyntaxError) : SourceError :=
  ⟨file, error.position, .grammatical error.fault⟩

def ofDiagnostic (file : String) (diagnostic : Diagnostic) : SourceError :=
  ⟨file, diagnostic.position, .compile diagnostic.fault⟩

def message (error : SourceError) : String :=
  error.file ++ ":" ++ error.position.text ++ ": " ++ error.fault.message

end SourceError

/-- Why a file has no text. -/
inductive FileFault where
  | missing
  | notText
  /-- Another reason, in the words of the operating system. -/
  | stated (reason : String)
deriving Repr, DecidableEq

def FileFault.message : FileFault → String
  | .missing => "No such file or directory (os error 2)"
  | .notText => "stream did not contain valid UTF-8"
  | .stated reason => reason

/-- Why bytes are not a snapshot. -/
inductive SnapshotFault where
  | endOfBytes
  | longVarint
  | badBool
  | badText
  /-- An unknown variant, or an array or table that is not valid. -/
  | refused
deriving Repr, DecidableEq

def SnapshotFault.message : SnapshotFault → String
  | .endOfBytes => "Hit the end of buffer, expected more data"
  | .longVarint =>
      "Found a varint that didn't terminate. Is the usize too big for this platform?"
  | .badBool => "Found a bool that wasn't 0 or 1"
  | .badText => "Tried to parse invalid utf-8"
  | .refused => "Serde Deserialization Error"

/-- What can go wrong with a machine. -/
inductive Error where
  | source (error : SourceError)
  | runtime (failure : Failure)
  | unreadable (file : String) (fault : FileFault)
  | snapshot (fault : SnapshotFault)
deriving Repr, DecidableEq

def Error.message : Error → String
  | .source error => error.message
  | .runtime failure => failure.message
  | .unreadable file fault => "cannot read " ++ file ++ ": " ++ fault.message
  | .snapshot fault => "snapshot error: " ++ fault.message

end Formulary
