import Formulary.Compile.Expr
import Formulary.Proofs.Eval.Confined

namespace Formulary

/-!
# The meaning of trees

A second evaluator, which knows no programs and no operand stack: it walks over
trees.  Every node counts as one step; a sign in front of a number is part of
the number, and the exponent of a square is part of the square.  The limits of
a configuration speak of the number of steps and of the number of operands that
wait while a node is evaluated, which is the depth a walk is given.
-/

/-- An expression and the signatures its names were declared with. -/
structure Formula where
  signatures : Signatures
  tree : Expr
deriving Inhabited

namespace Formula

/-- The formula of a value. -/
def constant (value : Value) : Formula :=
  ⟨Signatures.empty, .literal Position.start value⟩

end Formula

/-- What a name stands for, with formulas in the place of programs. -/
inductive Meaning where
  | scalar (formula : Formula)
  | array (dims : List Nat) (elements : List Formula)
  | function (params : List String) (body : Formula)
  | curve (curve : Curve)

namespace Meaning

def kind : Meaning → Kind
  | .scalar _ => .scalar
  | .array _ _ => .array
  | .function _ _ => .function
  | .curve _ => .curve

/-- How an expression uses a name. -/
inductive Demand where
  | value
  | interpolation
  | call (count : Nat)
  | index (count : Nat)

/-- Why a name cannot be used in a given way. -/
def refusal?
    (name : String)
    (meaning : Meaning)
    (demand : Demand) :
    Option Fault :=
  match demand, meaning with
  | .value, .scalar _ => none
  | .value, other => some (.type (.wrongUse other.kind name .asValue))
  | .interpolation, .curve _ => none
  | .interpolation, other =>
      some (.type (.wrongUse other.kind name .interpolated))
  | .call count, .function params _ =>
      if params.length = count then none
      else some (.type (.argumentCount name params.length count))
  | .call count, .curve _ =>
      if count = 1 then none else some (.type (.argumentCount name 1 count))
  | .call _, other => some (.type (.wrongUse other.kind name .called))
  | .index count, .array dims _ =>
      if dims.length = count then none
      else some (.index name (.rank dims.length count))
  | .index _, other => some (.type (.wrongUse other.kind name .indexed))

end Meaning

/-- An active call: parameters and their arguments. -/
structure Call where
  params : List String
  values : List Value
deriving Repr, DecidableEq

/--
The argument of a parameter; of a repeated parameter the last argument counts.
-/
def Call.argument? (call : Call) (name : String) : Option Value :=
  ((call.params.zip call.values).reverse.find? fun bound => bound.1 = name).map
    Prod.snd

/--
What names stand for: globally, and as parameters of active calls, innermost
first.
-/
structure Context where
  globals : String → Option Meaning
  calls : List Call

namespace Context

/-- What a parameter stands for. -/
def parameter (value : Value) : Meaning :=
  .scalar (.constant value)

/-- Enter a call. -/
def push (context : Context) (call : Call) : Context :=
  { context with calls := call :: context.calls }

/-- Number of scopes, the global one included. -/
def depth (context : Context) : Nat :=
  context.calls.length + 1

/--
What a name stands for in the scope of a given index, the global one being 0.
-/
def inScope? (context : Context) (name : String) : Nat → Option Meaning
  | 0 => context.globals name
  | index + 1 =>
      (context.calls.reverse[index]?.bind fun call => call.argument? name).map
        parameter

/-- What a name stands for under the policy of a configuration. -/
def lookup?
    (config : Config)
    (context : Context)
    (frame : Option Nat)
    (name : String) :
    Option Meaning :=
  match config.nameResolution with
  | .dynamic =>
      ((context.calls.findSome? fun call => call.argument? name).map
        parameter).or (context.globals name)
  | .lexical => (frame.bind (context.inScope? name)).or (context.globals name)

end Context

/-- Walking over a tree: the number of steps so far, or a failure. -/
abbrev Walk := EStateM Failure Nat

namespace Walk

def fail (fault : Fault) : Walk α :=
  throw (Failure.ofFault fault)

def ofExcept : Except Fault α → Walk α
  | .ok a => pure a
  | .error fault => fail fault

/-- Record the name whose evaluation fails. -/
def inside (name : String) (action : Walk α) : Walk α := fun steps =>
  match action steps with
  | .ok a later => .ok a later
  | .error failure later => .error (failure.inside name) later

/-- Count a node and check the limits. -/
def count (config : Config) (depth : Nat) : Walk Unit := fun steps =>
  match config.exceeded? (steps + 1) depth with
  | some limit => .error (Failure.ofFault (.nonTermination limit)) (steps + 1)
  | none => .ok () (steps + 1)

/--
How formulas of names are evaluated: in some context, perhaps inside a frame, at
a depth.
-/
abbrev Enter := Context → Option Nat → Formula → Nat → Walk Value

/-- Evaluate what a name stands for on its operands. -/
def apply
    (config : Config)
    (enter : Enter)
    (context : Context)
    (name : String)
    (depth : Nat)
    (values : List Value) :
    Meaning → Walk Value
  | .scalar formula => enter context none formula depth
  | .array dims elements => do
      let indices ← ofExcept
        (values.mapM fun value => (Cell.literal value).index)
      let offset ← ofExcept
        ((Grid.offset ⟨dims, #[]⟩ indices).mapError (.index name))
      enter context none (elements.getD offset (.constant (.int 0))) depth
  | .function params body =>
      enter (context.push ⟨params, values⟩) (some context.depth) body depth
  | .curve curve => do
      let x ← ofExcept (match values with
        | value :: _ => (Cell.literal value).number
        | [] => .error (.stackUnderflow 1 0))
      let y ← ofExcept
        ((curve.valueAt config.extrapolation x).mapError .curveDomain)
      return .double y

/-- Evaluate a name that is used in a given way. -/
def refer
    (config : Config)
    (enter : Enter)
    (context : Context)
    (frame : Option Nat)
    (demand : Meaning.Demand)
    (name : String)
    (depth : Nat)
    (values : List Value) :
    Walk Value :=
  match context.lookup? config frame name with
  | none => fail (.unboundName name)
  | some meaning =>
      match meaning.refusal? name demand with
      | some fault => fail fault
      | none =>
          inside name (apply config enter context name depth values meaning)

/-- The value of an operation on one or two operands. -/
def operate (op : Op) : List Value → Except Fault Value
  | [a] => op.unary (.literal a)
  | [a, b] => op.binaryResult (.literal a) (.literal b)
  | other => .error (.stackUnderflow op.arity other.length)

/--
Whether an expression is a number, to which a sign in front of it belongs.
-/
def isNumber : Expr → Bool
  | .literal _ value => value.isNumeric
  | _ => false

/-- How a called name is used: a declared table is looked up. -/
def calls
    (signatures : Signatures)
    (name : String)
    (count : Nat) :
    Meaning.Demand :=
  if signatures.get? name = some .curve then .interpolation else .call count

section

variable
  (config : Config)
  (enter : Enter)
  (context : Context)
  (frame : Option Nat)
  (signatures : Signatures)

mutual

/-- The value of a tree, with as many operands waiting as the depth says. -/
def walk (depth : Nat) : Expr → Walk Value
  | .literal _ value => do
      count config depth
      return value
  | .name _ name => do
      count config depth
      refer config enter context frame .value name depth []
  | .call _ name arguments => do
      let values ← walkAll depth arguments
      count config (depth + arguments.length)
      match Builtin.ofName? name with
      | some builtin => ofExcept (operate (.ofBuiltin builtin) values)
      | none =>
          refer config enter context frame
            (calls signatures name arguments.length) name depth values
  | .element _ name indices => do
      let values ← walkAll depth indices
      count config (depth + indices.length)
      refer config enter context frame (.index indices.length) name depth values
  | .negate _ operand => do
      let value ← walk depth operand
      if isNumber operand then pure () else count config (depth + 1)
      ofExcept (operate .negate [value])
  | .binary _ op left right =>
      if op = .pow ∧ Compile.isTwo right then do
        let base ← walk depth left
        count config (depth + 1)
        ofExcept (operate .square [base])
      else do
        let a ← walk depth left
        let b ← walk (depth + 1) right
        count config (depth + 2)
        ofExcept (operate (.binary op) [a, b])

/-- The values of several trees, from left to right. -/
def walkAll (depth : Nat) : List Expr → Walk (List Value)
  | [] => pure []
  | first :: rest => do
      let value ← walk depth first
      let values ← walkAll (depth + 1) rest
      return value :: values

end

end

/-- Evaluate formulas with a number of nested levels left. -/
def formula (config : Config) : Nat → Enter
  | 0 => fun _ _ _ _ => fail (.nonTermination (.callDepth config.maxCallDepth))
  | levels + 1 => fun context frame formula depth =>
      walk config (Walk.formula config levels) context frame formula.signatures
        depth formula.tree

end Walk

end Formulary
