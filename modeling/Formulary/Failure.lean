import Formulary.Cell.Height
import Formulary.Entry

namespace Formulary

/-!
# Failures of evaluation

A failure is a cause, and the chain of entries that were being evaluated when
it arose, the outermost first.
-/

/-- Why an arithmetic operation has no result. -/
inductive ArithmeticFault where
  | divisionByZero
  | overflow (op : BinaryOp) (a b : Int64)
  | negationOverflow (n : Int64)
  | absOverflow (n : Int64)
  | notFinite (op : Op)
  | builtin (fault : Builtin.Fault)
  | notAnInteger (x : Double)
  | unordered
deriving Repr, DecidableEq

def ArithmeticFault.message : ArithmeticFault → String
  | .divisionByZero => "division by zero"
  | .overflow op a b =>
      "integer overflow in " ++ toString a.toInt ++ " " ++ op.symbol ++ " " ++
        toString b.toInt
  | .negationOverflow n => "integer overflow in -(" ++ toString n.toInt ++ ")"
  | .absOverflow n => "integer overflow in abs(" ++ toString n.toInt ++ ")"
  | .notFinite op => op.mnemonic ++ " produced a non-finite result"
  | .builtin fault => fault.message
  | .notAnInteger x =>
      NumberLayout.plain.write x ++ " does not fit in an integer"
  | .unordered => "comparison with NaN"

/-- A use of a name that its kind may not allow. -/
inductive Use where
  | asValue
  | interpolated
  | called
  | indexed
  | asScalar
deriving Repr, DecidableEq

def Use.text : Use → String
  | .asValue => "used as a value"
  | .interpolated => "interpolated"
  | .called => "called"
  | .indexed => "indexed"
  | .asScalar => "read as a scalar"

/-- Why an operation does not apply to its operands. -/
inductive TypeFault where
  | mismatch (expected found : String)
  | notNumbers (op : Op) (left right : String)
  | notBinary (op : Op)
  | notUnary (op : Op)
  | booleanOrder (op : BinaryOp)
  | incomparable (left right : String)
  | wrongUse (kind : Kind) (name : String) (use : Use)
  | argumentCount (name : String) (expected found : Nat)
  | malformed (fault : HeightFault)
deriving Repr, DecidableEq

def TypeFault.message : TypeFault → String
  | .mismatch expected found => "expected " ++ expected ++ ", got " ++ found
  | .notNumbers op left right =>
      op.label ++ " needs numbers, got " ++ left ++ " and " ++ right
  | .notBinary op => op.mnemonic ++ " is not a binary operator"
  | .notUnary op => op.mnemonic ++ " is not a unary operator"
  | .booleanOrder op => "booleans only support == and !=, not " ++ op.symbol
  | .incomparable left right => "cannot compare " ++ left ++ " with " ++ right
  | .wrongUse kind name use =>
      kind.name ++ " '" ++ name ++ "' cannot be " ++ use.text
  | .argumentCount name expected found =>
      "'" ++ name ++ "' takes " ++ toString expected ++
        " argument(s), called with " ++ toString found
  | .malformed fault => "malformed program: " ++ fault.message

/-- A limit that an evaluation exceeded. -/
inductive Limit where
  | callDepth (most : Nat)
  | steps (most : Nat)
  | stackSize (most : Nat)
deriving Repr, DecidableEq

def Limit.message : Limit → String
  | .callDepth most =>
      "call depth limit exceeded (" ++ toString most ++
        ") - possible infinite recursion"
  | .steps most => "execution step limit exceeded (" ++ toString most ++ ")"
  | .stackSize most => "operand stack limit exceeded (" ++ toString most ++ ")"

/-- The classes of causes that can be told apart by a caller. -/
inductive FaultClass where
  | arithmetic
  | index
  | unboundName
  | nonTermination
  | type
  | stackUnderflow
  | curveDomain
deriving Repr, DecidableEq

/-- Why an evaluation failed. -/
inductive Fault where
  | arithmetic (fault : ArithmeticFault)
  | index (array : String) (fault : IndexFault)
  | unboundName (name : String)
  | nonTermination (limit : Limit)
  | type (fault : TypeFault)
  | stackUnderflow (needed found : Nat)
  | curveDomain (fault : Curve.DomainFault)
  /-- A cause given in words by a host program. -/
  | stated (label : FaultClass) (reason : String)
deriving Repr, DecidableEq

namespace Fault

/-- The class a cause belongs to. -/
def label : Fault → FaultClass
  | .arithmetic _ => .arithmetic
  | .index _ _ => .index
  | .unboundName _ => .unboundName
  | .nonTermination _ => .nonTermination
  | .type _ => .type
  | .stackUnderflow _ _ => .stackUnderflow
  | .curveDomain _ => .curveDomain
  | .stated label _ => label

/-- What the class of a cause is called in front of its reason. -/
def heading : FaultClass → String
  | .arithmetic => "arithmetic error: "
  | .index => "index error: "
  | .unboundName => "unbound name "
  | .nonTermination => "non-termination: "
  | .type => "type error: "
  | .stackUnderflow => "stack underflow: "
  | .curveDomain => "piecewise-linear domain error: "

def reason : Fault → String
  | .arithmetic fault => fault.message
  | .index array fault => "array '" ++ array ++ "': " ++ fault.message
  | .unboundName name => "'" ++ name ++ "'"
  | .nonTermination limit => limit.message
  | .type fault => fault.message
  | .stackUnderflow needed found =>
      "needed " ++ toString needed ++ " item(s), found " ++ toString found
  | .curveDomain fault => fault.message
  | .stated _ reason => reason

def message (fault : Fault) : String :=
  heading fault.label ++ fault.reason

end Fault

/-- A run of equal names in a call stack. -/
structure FrameRun where
  start : Nat
  name : String
  count : Nat
deriving Repr, DecidableEq

namespace FrameRun

/--
The maximal runs of equal names, the first name having the given position.
-/
def runsFrom (start : Nat) : List String → List FrameRun
  | [] => []
  | name :: rest =>
      match runsFrom (start + 1) rest with
      | [] => [⟨start, name, 1⟩]
      | next :: others =>
          if next.name = name then ⟨start, name, next.count + 1⟩ :: others
          else ⟨start, name, 1⟩ :: next :: others

/-- The maximal runs of equal names. -/
def ofStack (stack : List String) : List FrameRun :=
  runsFrom 0 stack

/-- Number of frames in a list of runs. -/
def total (runs : List FrameRun) : Nat :=
  runs.foldr (fun run sum => run.count + sum) 0

/-- Most runs a listing shows. -/
def maxShown : Nat :=
  16

/-- One line of a listing. -/
def line (run : FrameRun) : String :=
  toString run.start ++ ": " ++ run.name
    ++ (if 1 < run.count then " (repeated " ++ toString run.count ++ " times)"
      else "")

/-- The runs of a long listing that are only counted. -/
def hidden (runs : List FrameRun) : List FrameRun :=
  (runs.drop (maxShown / 2)).take (runs.length - maxShown)

/-- The lines of a listing; the middle of a long one is only counted. -/
def lines (runs : List FrameRun) : List String :=
  if runs.length ≤ maxShown then runs.map line
  else
    (runs.take (maxShown / 2)).map line
      ++ ["... " ++ toString (total (hidden runs)) ++ " more frames"]
      ++ (runs.drop (runs.length - maxShown / 2)).map line

end FrameRun

/-- A failed evaluation. -/
structure Failure where
  fault : Fault
  callStack : List String
deriving Repr, DecidableEq

namespace Failure

/-- A failure outside every entry. -/
def ofFault (fault : Fault) : Failure :=
  ⟨fault, []⟩

/--
Record the entry inside which a failure arose; the frames come innermost first.
-/
def inside (entry : String) (failure : Failure) : Failure :=
  { failure with callStack := entry :: failure.callStack }

/-- The cause and the listing of the call stack. -/
def message (failure : Failure) : String :=
  "runtime error: " ++ failure.fault.message
    ++ (if failure.callStack.isEmpty then ""
        else
          "\n  call stack:"
            ++ String.join ((FrameRun.lines
              (FrameRun.ofStack failure.callStack)).map fun line =>
                "\n    " ++ line))

end Failure

end Formulary
