import Formulary.Failure
import Formulary.Source.Position

namespace Formulary

/-!
# Diagnostics of compilation

Why a well-formed source is refused, and where.
-/

/-- Why a declaration is malformed on its own terms. -/
inductive DefinitionFault where
  | repeatedParam (param : String)
  | tooManyDimensions (rank : Nat)
  | builtinName
  | points (fault : Curve.Fault)
  | smallDimension (axis : Nat) (size : Int64)
  | tooLarge
  | tooManyElements (count most : Nat)
  | surplusInitializers (count room : Nat)
  | index (fault : IndexFault)
  /-- A reason given in words by a host program. -/
  | stated (reason : String) (hint : Option String)
deriving Repr, DecidableEq

namespace DefinitionFault

/-- What is wrong, as a predicate of the declared name. -/
def reason : DefinitionFault → String
  | .repeatedParam param => "declares parameter '" ++ param ++ "' twice"
  | .tooManyDimensions rank =>
      "has " ++ toString rank ++ " dimensions, at most " ++
        toString Grid.maxRank ++ " are allowed"
  | .builtinName => "is a builtin function and cannot be redefined"
  | .points fault => fault.message
  | .smallDimension axis size =>
      "dimension " ++ toString axis ++ " has size " ++ toString size.toInt
        ++ ", sizes must be at least 1"
  | .tooLarge => "is too large"
  | .tooManyElements count most =>
      "has " ++ toString count ++ " elements, at most " ++ toString most ++
        " are allowed"
  | .surplusInitializers count room =>
      "has " ++ toString count ++ " initializers but room for only " ++
        toString room ++ " elements"
  | .index fault => fault.message
  | .stated reason _ => reason

def hint? : DefinitionFault → Option String
  | .builtinName => some "pick a different name"
  | .surplusInitializers _ _ =>
      some
        "missing trailing elements are filled with 0; extra ones are an error"
  | .stated _ hint => hint
  | _ => none

end DefinitionFault

/-- A place in a declaration whose value is needed while loading. -/
inductive Constant where
  | coordinate (axis : String) (point : Nat) (table : String)
  | dimension (axis : Nat) (array : String)
  | index (axis : Nat) (array : String)
  | printed
  /-- A place described in words by a host program. -/
  | stated (description : String)
deriving Repr, DecidableEq

def Constant.text : Constant → String
  | .coordinate axis point table =>
      axis ++ " of point " ++ toString point ++ " in '" ++ table ++ "'"
  | .dimension axis array =>
      "size of dimension " ++ toString axis ++ " of '" ++ array ++ "'"
  | .index axis array => "index " ++ toString axis ++ " of '" ++ array ++ "'"
  | .printed => "print statement"
  | .stated description => description

/-- Why a source does not compile. -/
inductive CompileFault where
  | undeclared (name : String)
  | notAValue (name kind : String)
  | notCallable (name kind : String)
  | notIndexable (name kind : String)
  | argumentCount (name : String) (expected found : Nat)
  | indexCount (name : String) (expected found : Nat)
  | invalid (name : String) (fault : DefinitionFault)
  | constantFailed (constant : Constant) (failure : Failure)
  | constantType (constant : Constant) (expected : String) (found : Value)
  | internal (reason : String)
deriving Repr, DecidableEq

namespace CompileFault

/-- The ending of a counted noun. -/
def plural (count : Nat) : String :=
  if count = 1 then "" else "s"

/-- What is wrong, in one line; a failure brings its call stack. -/
def summary : CompileFault → String
  | .undeclared name => "undeclared name '" ++ name ++ "'"
  | .notAValue name kind =>
      kind ++ " '" ++ name ++ "' cannot be used as a value"
  | .notCallable name kind => kind ++ " '" ++ name ++ "' cannot be called"
  | .notIndexable name kind => kind ++ " '" ++ name ++ "' cannot be indexed"
  | .argumentCount name expected found =>
      "'" ++ name ++ "' takes " ++ toString expected ++ " argument" ++
        plural expected ++ ", got " ++ toString found
  | .indexCount name expected found =>
      "array '" ++ name ++ "' has " ++ toString expected ++ " dimension" ++
        plural expected
        ++ ", got " ++ toString found ++
          (if found = 1 then " index" else " indices")
  | .invalid name fault => "'" ++ name ++ "' " ++ fault.reason
  | .constantFailed constant failure =>
      "cannot evaluate " ++ constant.text ++ ": " ++ failure.message
  | .constantType constant expected found =>
      constant.text ++ " must be " ++ expected ++ ", got " ++ found.typeName ++
        " " ++ found.text
  | .internal reason => "internal error: " ++ reason

/-- Advice on a remedy. -/
def hint? : CompileFault → Option String
  | .undeclared _ =>
      some "declare it in this file or in a file loaded before it"
  | .notAValue name kind =>
      some (if kind = "array" then "index it, e.g. " ++ name ++ "[0]"
        else "call it, e.g. " ++ name ++ "(x)")
  | .notCallable _ _ =>
      some "only builtins, functions and piecewise-linear tables take arguments"
  | .invalid _ fault => fault.hint?
  | _ => none

def message (fault : CompileFault) : String :=
  "compile error: " ++ fault.summary
    ++ (match fault.hint? with
        | some hint => "\n  hint: " ++ hint
        | none => "")

end CompileFault

/-- A fault and the position of the construct that caused it. -/
structure Diagnostic where
  fault : CompileFault
  position : Position
deriving Repr, DecidableEq

def Diagnostic.message (diagnostic : Diagnostic) : String :=
  diagnostic.position.text ++ ": " ++ diagnostic.fault.message

end Formulary
