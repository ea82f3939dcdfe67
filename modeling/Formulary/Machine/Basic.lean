import Formulary.Error
import Formulary.Eval.Basic

namespace Formulary

/-!
# Machines

A machine holds the entries that have been loaded, an operand stack, and the
values printed while loading.  Evaluations start with a fresh count of steps
and all levels of nesting; they change nothing but the stack.
-/

/-- A loaded formulary and its operand stack. -/
structure Machine where
  scopes : Scopes
  stack : Stack
  config : Config
  printed : List Value
  /-- Number of programs being executed; between evaluations there is none. -/
  callDepth : Nat
deriving Repr, DecidableEq, Inhabited

/-- An operation on a machine; an error keeps the state it arose in. -/
abbrev Session := EStateM Error Machine

/-- Outcomes are compared together with the states they leave. -/
instance decidableEqResult
    {ε σ α : Type}
    [DecidableEq ε] [DecidableEq σ] [DecidableEq α] :
    DecidableEq (EStateM.Result ε σ α)
  | .ok value state, .ok value' state' =>
      decidable_of_iff (value = value' ∧ state = state') (by simp)
  | .error error state, .error error' state' =>
      decidable_of_iff (error = error' ∧ state = state') (by simp)
  | .ok .., .error .. => isFalse nofun
  | .error .., .ok .. => isFalse nofun

namespace Machine

/-- A machine without entries. -/
def ofConfig (config : Config) : Machine :=
  ⟨Scopes.empty, Stack.empty, config, [], 0⟩

/-- Global entries in order of declaration. -/
def entries (machine : Machine) : List Entry :=
  machine.scopes.globals.entries

/-- Global names in order of declaration. -/
def names (machine : Machine) : List String :=
  machine.scopes.globals.names

/-- The entry of a name. -/
def find? (machine : Machine) (name : String) : Option Entry :=
  machine.scopes.find? name

/-- The sizes of an array. -/
def arrayDims? (machine : Machine) (name : String) : Option (List Nat) := do
  let entry ← machine.find? name
  let grid ← entry.grid?
  return grid.dims

/-- A copy with an empty stack. -/
def copy (machine : Machine) : Machine :=
  { machine with stack := Stack.empty, callDepth := 0 }

/-- A machine with the same settings and nothing else. -/
def cleared (machine : Machine) : Machine :=
  { ofConfig machine.config with callDepth := machine.callDepth }

/-- Drop cells from the top of the stack until at most `depth` are left. -/
def truncate (machine : Machine) (depth : Nat) : Machine :=
  { machine with stack := machine.stack.truncate depth }

def push (cell : Cell) : Session Unit :=
  modify fun machine => { machine with stack := machine.stack.push cell }

def pushAll (cells : List Cell) : Session Unit :=
  modify fun machine => { machine with stack := machine.stack.pushAll cells }

/-- Fail with a fault outside every entry. -/
def fail (fault : Fault) : Session α :=
  throw (.runtime (Failure.ofFault fault))

def ofExcept : Except Fault α → Session α
  | .ok a => pure a
  | .error fault => fail fault

def pop : Session Cell := do
  let machine ← get
  let (cell, stack) ← ofExcept machine.stack.pop
  set { machine with stack := stack }
  return cell

/-- The state in which an evaluation starts. -/
def fresh (machine : Machine) : Run :=
  ⟨machine.stack, 0, 0⟩

/-- The machine after an evaluation. -/
def after (machine : Machine) (run : Run) : Machine :=
  { machine with stack := run.stack, callDepth := run.callDepth }

/--
Evaluate with the machine's stack; a failure cuts the stack back to a given
depth.
-/
def execute (action : Eval Unit) (base : Nat) : Session Unit := fun machine =>
  match action machine.fresh with
  | .ok () run => .ok () (machine.after run)
  | .error failure run =>
      .error (.runtime failure) ((machine.after run).truncate base)

/--
Run an entry, leaving its value on the stack.  Its operands are taken from the
stack, and when the entry fails they are gone.
-/
def runEntry (entry : Entry) : Session Unit := do
  let machine ← get
  let depth := machine.stack.depth
  let count := entry.operandCount
  if depth < count then
    throw (.runtime
      ((Failure.ofFault (.stackUnderflow count depth)).inside entry.name))
  else
    execute (Eval.apply machine.config (Eval.runTop machine.config)
      machine.scopes entry) (depth - count)

/-- Run a program that leaves exactly one value. -/
def runCode (code : Code) : Session Unit := do
  match Code.check code with
  | .error fault => fail (.type (.malformed fault))
  | .ok () =>
      let machine ← get
      execute (Eval.runTop machine.config machine.scopes none code)
        machine.stack.depth

/-- Run an entry and pop its value. -/
def valueOf (entry : Entry) : Session Value := do
  runEntry entry
  let cell ← pop
  ofExcept cell.result

/--
Run a program and take its value, leaving no more on the stack than before.
-/
def evaluate (code : Code) : EStateM Failure Machine Value := fun machine =>
  let action : Eval Value := do
    Eval.runTop machine.config machine.scopes none code
    let cell ← Eval.pop
    Eval.ofExcept cell.result
  let base := machine.stack.depth
  match action machine.fresh with
  | .ok value run => .ok value ((machine.after run).truncate base)
  | .error failure run => .error failure ((machine.after run).truncate base)

/-- Evaluate a program inside a session. -/
def evaluateInside
    (context : Failure → Failure)
    (code : Code) :
    Session Value := fun machine =>
  match evaluate code machine with
  | .ok value machine => .ok value machine
  | .error failure machine => .error (.runtime (context failure)) machine

/-- What becomes of a name that is not declared. -/
inductive Missing where
  | abort
  | useDefault
deriving Repr, DecidableEq, Inhabited

/-- The value of a scalar, by its name. -/
def scalar (name : String) (missing : Missing) : Session (Option Value) := do
  match (← get).find? name with
  | none =>
      match missing with
      | .abort => fail (.unboundName name)
      | .useDefault => return none
  | some entry =>
      if entry.isScalar then return some (← valueOf entry)
      else fail (Eval.wrongUse entry .asScalar)

/-- The value of an array element. -/
def element (entry : Entry) (indices : List Int64) : Session Value := do
  match entry.grid? with
  | none => fail (Eval.wrongUse entry .indexed)
  | some grid =>
      if indices.length = grid.rank then
        pushAll (indices.map fun index => .literal (.int index))
        valueOf entry
      else fail (.index entry.name (.rank grid.rank indices.length))

/-- Refuse a call with the wrong number of arguments. -/
def checkArity (name : String) (expected found : Nat) : Session Unit :=
  if expected = found then pure ()
  else fail (.type (.argumentCount name expected found))

/-- Call a built-in function, a function or a table by its name. -/
def call (name : String) (arguments : List Value) : Session Value := do
  match Builtin.ofName? name with
  | some builtin =>
      checkArity name builtin.arity arguments.length
      evaluateInside (Failure.inside name)
        (arguments.map Cell.literal ++ [.op (.ofBuiltin builtin)])
  | none =>
      match (← get).find? name with
      | none => fail (.unboundName name)
      | some entry =>
          match entry.arity? with
          | none => fail (Eval.wrongUse entry .called)
          | some arity =>
              checkArity name arity arguments.length
              pushAll (arguments.map Cell.literal)
              valueOf entry

/-- Call with doubles, for a number. -/
def callNumber (name : String) (arguments : List Double) : Session Double := do
  let result ← call name (arguments.map Value.double)
  match result.asDouble? with
  | some x => return x
  | none =>
      throw (.runtime
        ((Failure.ofFault (.type (.mismatch "a number" result.typeName))).inside
          name))

end Machine

end Formulary
