import Formulary.Arithmetic
import Formulary.Entry.Scopes
import Formulary.Eval.Config
import Formulary.Eval.Stack

namespace Formulary

/-!
# Evaluation

A program is executed cell by cell on an operand stack.  A reference evaluates
the entry it resolves to, which may run further programs; how deep these may
nest is limited, and evaluation is by recursion on the levels that are left.
The scopes are only read: a function body runs with one more frame, and its
caller goes on with the scopes it had.
-/

/-- What an evaluation changes: the stack, and the counts behind its limits. -/
structure Run where
  stack : Stack
  /-- Number of cells executed so far. -/
  steps : Nat
  /-- Number of programs being executed, one inside the other. -/
  callDepth : Nat
deriving Repr, DecidableEq, Inhabited

/-- An evaluation in progress; a failure keeps the state it arose in. -/
abbrev Eval := EStateM Failure Run

namespace Eval

def fail (fault : Fault) : Eval α :=
  throw (Failure.ofFault fault)

/-- Give the result of an operation or fail with its fault. -/
def ofExcept : Except Fault α → Eval α
  | .ok a => pure a
  | .error fault => fail fault

/-- Record the entry inside which an evaluation fails. -/
def inside (entry : String) (action : Eval α) : Eval α := fun run =>
  match action run with
  | .ok a run => .ok a run
  | .error failure run => .error (failure.inside entry) run

def push (cell : Cell) : Eval Unit :=
  modify fun run => { run with stack := run.stack.push cell }

def pop : Eval Cell := do
  let run ← get
  let (cell, stack) ← ofExcept run.stack.pop
  set { run with stack := stack }
  return cell

def popMany (count : Nat) : Eval (List Cell) := do
  let run ← get
  let (cells, stack) ← ofExcept (run.stack.popMany count)
  set { run with stack := stack }
  return cells

/-- Count a cell and check the limits before it is executed. -/
def tick (config : Config) : Eval Unit := do
  modify fun run => { run with steps := run.steps + 1 }
  let run ← get
  match config.maxSteps with
  | some most => if most < run.steps then fail (.nonTermination (.steps most))
  | none => pure ()
  if config.maxStackSize < run.stack.depth then
    fail (.nonTermination (.stackSize config.maxStackSize))

/-- Apply an operation to the cells on top of the stack. -/
def operate (op : Op) : Eval Unit := do
  if op.arity = 1 then
    let a ← pop
    let value ← ofExcept (op.unary a)
    push (.literal value)
  else
    let b ← pop
    let a ← pop
    let value ← ofExcept (op.binaryResult a b)
    push (.literal value)

/--
How the programs of entries are run: in some scopes, perhaps inside a frame.
-/
abbrev Runner := Scopes → Option Nat → Code → Eval Unit

/-- Evaluate a definition on its operands. -/
def applyDefinition
    (config : Config)
    (runner : Runner)
    (scopes : Scopes)
    (name : String)
    (definition : Definition) :
    Eval Unit := do
  match definition with
  | .scalar code => runner scopes none code
  | .array grid =>
      let cells ← popMany grid.rank
      let indices ← ofExcept (cells.mapM Cell.index)
      let code ← ofExcept ((grid.element indices).mapError (.index name))
      runner scopes none code
  | .function params body =>
      let arguments ← popMany params.length
      runner (scopes.push (Bindings.ofArguments params arguments))
        (some scopes.depth) body
  | .curve curve =>
      let cell ← pop
      let x ← ofExcept cell.number
      let y ← ofExcept
        ((curve.valueAt config.extrapolation x).mapError .curveDomain)
      push (.literal (.double y))

/-- Evaluate an entry on its operands, leaving its value on the stack. -/
def apply
    (config : Config)
    (runner : Runner)
    (scopes : Scopes)
    (entry : Entry) :
    Eval Unit :=
  inside entry.name
    (applyDefinition config runner scopes entry.name entry.definition)

/-- The entry a name resolves to. -/
def resolve
    (config : Config)
    (scopes : Scopes)
    (frame : Option Nat)
    (name : String) :
    Eval Entry :=
  let found :=
    match config.nameResolution with
    | .dynamic => scopes.find? name
    | .lexical => scopes.resolve? frame name
  match found with
  | some entry => pure entry
  | none => fail (.unboundName name)

/-- The failure of a use that the kind of an entry does not allow. -/
def wrongUse (entry : Entry) (use : Use) : Fault :=
  .type (.wrongUse entry.kind entry.name use)

/-- Whether a reference may use the entry it resolves to. -/
def useFault? (cell : Cell) (entry : Entry) : Option Fault :=
  match cell with
  | .variable _ =>
      if entry.kind = .scalar then none else some (wrongUse entry .asValue)
  | .lookup _ =>
      if entry.kind = .curve then none else some (wrongUse entry .interpolated)
  | .call name arity =>
      match entry.arity? with
      | none => some (wrongUse entry .called)
      | some expected =>
          if expected = arity then none
          else some (.type (.argumentCount name expected arity))
  | .element name rank =>
      match entry.grid? with
      | none => some (wrongUse entry .indexed)
      | some grid =>
          if grid.rank = rank then none
          else some (.index name (.rank grid.rank rank))
  | _ => none

/-- Execute one cell. -/
def execCell
    (config : Config)
    (runner : Runner)
    (scopes : Scopes)
    (frame : Option Nat)
    (cell : Cell) :
    Eval Unit := do
  match cell with
  | .literal _ => push cell
  | .op operation => operate operation
  | .variable name | .lookup name | .call name _ | .element name _ =>
      let entry ← resolve config scopes frame name
      match useFault? cell entry with
      | some fault => fail fault
      | none => apply config runner scopes entry

/-- Execute the cells of a program. -/
def execCells
    (config : Config)
    (runner : Runner)
    (scopes : Scopes)
    (frame : Option Nat) :
    Code → Eval Unit
  | [] => pure ()
  | cell :: rest => do
      tick config
      execCell config runner scopes frame cell
      execCells config runner scopes frame rest

/-- Count a program while it is executed, whether it fails or not. -/
def nested (action : Eval α) : Eval α := fun run =>
  match action { run with callDepth := run.callDepth + 1 } with
  | .ok a run => .ok a { run with callDepth := run.callDepth - 1 }
  | .error failure run =>
      .error failure { run with callDepth := run.callDepth - 1 }

/-- Run programs with a number of nested levels left. -/
def runProgram (config : Config) : Nat → Runner
  | 0 => fun _ _ _ => fail (.nonTermination (.callDepth config.maxCallDepth))
  | levels + 1 => fun scopes frame code =>
      nested (execCells config (runProgram config levels) scopes frame code)

/-- Run a program with all the levels of a configuration. -/
def runTop (config : Config) : Runner :=
  runProgram config config.maxCallDepth

end Eval

end Formulary
