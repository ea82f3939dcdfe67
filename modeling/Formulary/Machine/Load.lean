import Formulary.Compile.Expr
import Formulary.Machine.Basic
import Formulary.Source.Parse.Statement

namespace Formulary

/-!
# Loading sources

A source is parsed as a whole, its declarations are collected, and then its
statements are carried out one after the other.  Programs are stored
unevaluated; sizes, indices, points and printed values are evaluated against
what has been stored so far.  A source that fails leaves the machine as it was.
-/

namespace Load

/--
Carrying out statements: the machine being built, or what is wrong with a
statement.
-/
abbrev Build := EStateM Diagnostic Machine

def fail (fault : CompileFault) (position : Position) : Build α :=
  throw ⟨fault, position⟩

def ofExcept : Except Diagnostic α → Build α
  | .ok a => pure a
  | .error diagnostic => throw diagnostic

/-- Compile an expression outside every function. -/
def compile (signatures : Signatures) (source : Expr) : Build Code :=
  ofExcept (Compile.expr signatures [] source)

/-- Evaluate an expression while loading. -/
def constant
    (signatures : Signatures)
    (place : Constant)
    (source : Expr) :
    Build Value := do
  let code ← compile signatures source
  fun machine =>
    match Machine.evaluate code machine with
    | .ok value machine => .ok value machine
    | .error failure machine =>
        .error ⟨.constantFailed place failure, source.position⟩ machine

/-- Evaluate a number while loading. -/
def constantNumber
    (signatures : Signatures)
    (place : Constant)
    (source : Expr) :
    Build Double := do
  let value ← constant signatures place source
  match value.asDouble? with
  | some x => return x
  | none => fail (.constantType place "a number" value) source.position

/-- Evaluate an index while loading. -/
def constantIndex (signatures : Signatures) (place : Constant) (source : Expr) :
    Build Int64 := do
  let value ← constant signatures place source
  match (Cell.literal value).index with
  | .ok n => return n
  | .error _ => fail (.constantType place "an integer" value) source.position

def define (entry : Entry) : Build Unit :=
  modify fun machine => { machine with scopes := machine.scopes.define entry }

/-- The points of a table, from a given index on. -/
def points (signatures : Signatures) (table : String) (index : Nat) :
    List (Expr × Expr) → Build (List Point)
  | [] => return []
  | (x, y) :: rest => do
      let x ← constantNumber signatures (.coordinate "x" index table) x
      let y ← constantNumber signatures (.coordinate "y" index table) y
      let others ← points signatures table (index + 1) rest
      return ⟨x, y⟩ :: others

/-- The sizes of an array, from a given axis on. -/
def dimensions (signatures : Signatures) (array : String) (axis : Nat) :
    List Expr → Build (List Nat)
  | [] => return []
  | size :: rest => do
      let n ← constantIndex signatures (.dimension axis array) size
      if n.toInt < 1 then
        fail (.invalid array (.smallDimension axis n)) size.position
      else
        let others ← dimensions signatures array (axis + 1) rest
        return n.toInt.toNat :: others

/-- The indices of an element, from a given axis on. -/
def indices (signatures : Signatures) (array : String) (axis : Nat) :
    List Expr → Build (List Int64)
  | [] => return []
  | index :: rest => do
      let n ← constantIndex signatures (.index axis array) index
      let others ← indices signatures array (axis + 1) rest
      return n :: others

/-- The programs of several expressions. -/
def compileEach (signatures : Signatures) : List Expr → Build (List Code)
  | [] => return []
  | first :: rest => do
      let code ← compile signatures first
      let others ← compileEach signatures rest
      return code :: others

/-- Why an array of given sizes cannot hold a number of initializers. -/
def sizeFault?
    (config : Config)
    (dims : List Nat)
    (count : Nat) :
    Option DefinitionFault :=
  match Grid.checkedCapacity dims with
  | none => some .tooLarge
  | some capacity =>
      if config.maxArrayElements < capacity then
        some (.tooManyElements capacity config.maxArrayElements)
      else if capacity < count then some (.surplusInitializers count capacity)
      else none

/-- Declare an array. -/
def array
    (signatures : Signatures)
    (position : Position)
    (name : String)
    (sizes : Option (List Expr))
    (elements : List Expr) :
    Build Unit := do
  let dims ←
    match sizes with
    | some sizes => dimensions signatures name 0 sizes
    | none => pure [elements.length]
  match sizeFault? (← get).config dims elements.length with
  | some fault => fail (.invalid name fault) position
  | none =>
      let programs ← compileEach signatures elements
      define ⟨name, .array (Grid.ofElements dims programs)⟩

/-- The array whose element a statement changes. -/
def assignedArray (name : String) (position : Position) : Build Grid := do
  match (← get).scopes.globals.get? name with
  | none => fail (.undeclared name) position
  | some entry =>
      match entry.grid? with
      | none => fail (.notIndexable name entry.kind.name) position
      | some grid => return grid

/-- Change an element of an array. -/
def assign
    (signatures : Signatures)
    (position : Position)
    (name : String)
    (subscripts : List Expr)
    (value : Expr) :
    Build Unit := do
  let grid ← assignedArray name position
  if subscripts.length = grid.rank then
    let tuple ← indices signatures name 0 subscripts
    let code ← compile signatures value
    match grid.set tuple code with
    | .ok changed => define ⟨name, .array changed⟩
    | .error fault => fail (.invalid name (.index fault)) position
  else fail (.indexCount name grid.rank subscripts.length) position

/-- Carry out one statement. -/
def statement (signatures : Signatures) (source : Statement) : Build Unit := do
  match source.action with
  | .scalar name value =>
      let code ← compile signatures value
      define ⟨name, .scalar code⟩
  | .function name params body =>
      let code ← ofExcept (Compile.expr signatures params body)
      define ⟨name, .function params code⟩
  | .curve name pairs =>
      let table ← points signatures name 0 pairs
      match Curve.ofPoints table with
      | .ok curve => define ⟨name, .curve curve⟩
      | .error fault => fail (.invalid name (.points fault)) source.position
  | .array name sizes elements =>
      array signatures source.position name sizes elements
  | .assign name subscripts value =>
      assign signatures source.position name subscripts value
  | .print value =>
      let result ← constant signatures .printed value
      modify fun machine =>
        { machine with printed := machine.printed ++ [result] }

/-- Carry out statements in order. -/
def statements (signatures : Signatures) : List Statement → Build Unit
  | [] => pure ()
  | first :: rest => do
      statement signatures first
      statements signatures rest

/-- Declare the names of a source and carry out its statements. -/
def program (source : List Statement) : Build Unit := do
  let known := Signatures.ofEntries (← get).entries
  let signatures ← ofExcept (Compile.declareAll known source)
  statements signatures source

end Load

namespace Machine

/-- The statements of a source. -/
def parse (file source : String) : Except SourceError (List Statement) := do
  let tokens ← (Token.scan source).mapError (SourceError.ofLexError file)
  (Parse.program tokens).mapError (SourceError.ofSyntaxError file)

/-- How a source relates to what has been loaded before. -/
inductive LoadMode where
  /-- It takes the place of everything. -/
  | replace
  /--
  Its declarations are added, or take the place of earlier ones of the same
  name.
  -/
  | extend
deriving Repr, DecidableEq, Inhabited

/-- The machine on which the statements of a source are carried out. -/
def staging (mode : LoadMode) (machine : Machine) : Machine :=
  match mode with
  | .replace => ofConfig machine.config
  | .extend => { ofConfig machine.config with scopes := machine.scopes }

/-- Take over what has been built from a source. -/
def commit (mode : LoadMode) (machine built : Machine) : Machine :=
  { machine with
    scopes := built.scopes
    stack := Stack.empty
    printed :=
      match mode with
      | .replace => built.printed
      | .extend => machine.printed ++ built.printed }

/-- Load a source; `file` only labels errors. -/
def load
    (mode : LoadMode)
    (file source : String) :
    Session Unit := fun machine =>
  match parse file source with
  | .error error => .error (.source error) machine
  | .ok program =>
      match Load.program program (staging mode machine) with
      | .ok () built => .ok () (commit mode machine built)
      | .error diagnostic _ =>
          .error (.source (SourceError.ofDiagnostic file diagnostic)) machine

/-- Load the contents of a file, if it could be read. -/
def loadFile
    (mode : LoadMode)
    (file : String)
    (contents : Except FileFault String) :
    Session Unit := do
  match contents with
  | .ok source => load mode file source
  | .error fault => throw (.unreadable file fault)

/-- How errors in an expression evaluated on its own are labelled. -/
def evalLabel : String :=
  "<eval>"

/-- Compile an expression against the entries of a machine. -/
def compile
    (machine : Machine)
    (source : String) :
    Except SourceError Code := do
  let tokens ← (Token.scan source).mapError (SourceError.ofLexError evalLabel)
  let parsed ← (Parse.standalone tokens).mapError
    (SourceError.ofSyntaxError evalLabel)
  (Compile.expr (Signatures.ofEntries machine.entries) [] parsed).mapError
    (SourceError.ofDiagnostic evalLabel)

/-- Evaluate an expression without storing it. -/
def eval (source : String) : Session Value := do
  match (← get).compile source with
  | .error error => throw (.source error)
  | .ok code => evaluateInside id code

end Machine

end Formulary
