import Formulary.Cell.Height
import Formulary.Compile.Diagnostic
import Formulary.Compile.Signature
import Formulary.Source.Expr

namespace Formulary

/-!
# Compiling expressions

An expression becomes the postfix program of its operands followed by its
operator or reference.  A name is resolved against the parameters in scope, the
built-in functions and the declared signatures.  A negated number literal is
folded, and a power with the literal exponent 2 is a square.
-/

namespace Compile

/-- How messages call a parameter. -/
def parameterKind : String :=
  "parameter"

/-- How messages call a built-in function. -/
def builtinKind : String :=
  "builtin function"

/--
The fault of an undeclared name, which may still be that of a built-in function.
-/
def undeclared (name : String) (asBuiltin : CompileFault) : CompileFault :=
  if (Builtin.ofName? name).isSome then asBuiltin else .undeclared name

/-- The reference of a bare name. -/
def valueOf (signatures : Signatures) (params : List String) (name : String) :
    Except CompileFault Cell :=
  if params.contains name then .ok (.variable name)
  else
    match signatures.get? name with
    | some .scalar => .ok (.variable name)
    | some other => .error (.notAValue name other.kind.name)
    | none => .error (undeclared name (.notAValue name builtinKind))

/-- The reference of a called name, and the number of its arguments. -/
def calleeOf (signatures : Signatures) (params : List String) (name : String) :
    Except CompileFault (Cell × Nat) :=
  if params.contains name then .error (.notCallable name parameterKind)
  else
    match Builtin.ofName? name with
    | some builtin => .ok (.op (.ofBuiltin builtin), builtin.arity)
    | none =>
        match signatures.get? name with
        | some (.function arity) => .ok (.call name arity, arity)
        | some .curve => .ok (.lookup name, 1)
        | some other => .error (.notCallable name other.kind.name)
        | none => .error (.undeclared name)

/-- The number of indices of an indexed name. -/
def rankOf (signatures : Signatures) (params : List String) (name : String) :
    Except CompileFault Nat :=
  if params.contains name then .error (.notIndexable name parameterKind)
  else
    match signatures.get? name with
    | some (.array rank) => .ok rank
    | some other => .error (.notIndexable name other.kind.name)
    | none => .error (undeclared name (.notIndexable name builtinKind))

/-- The reference of a call with a given number of arguments. -/
def callCell
    (signatures : Signatures)
    (params : List String)
    (name : String)
    (count : Nat) :
    Except CompileFault Cell :=
  match calleeOf signatures params name with
  | .error fault => .error fault
  | .ok (cell, arity) =>
      if count = arity then .ok cell
      else .error (.argumentCount name arity count)

/-- The reference of an array element with a given number of indices. -/
def elementCell
    (signatures : Signatures)
    (params : List String)
    (name : String)
    (count : Nat) :
    Except CompileFault Cell :=
  match rankOf signatures params name with
  | .error fault => .error fault
  | .ok rank =>
      if count = rank then .ok (.element name rank)
      else .error (.indexCount name rank count)

/-- Anchor a fault at a position. -/
def anchor (position : Position) : Except CompileFault α → Except Diagnostic α
  | .ok a => .ok a
  | .error fault => .error ⟨fault, position⟩

/-- The number of a negated literal. -/
def negatedLiteral? : Expr → Option Value
  | .literal _ (.int n) => some (.int (-n))
  | .literal _ (.double x) => some (.double x.neg)
  | _ => none

/-- Whether an expression is the integer literal 2. -/
def isTwo : Expr → Bool
  | .literal _ (.int n) => n = 2
  | _ => false

mutual

/-- The program of an expression. -/
def emit
    (signatures : Signatures)
    (params : List String) :
    Expr → Except Diagnostic Code
  | .literal _ value => .ok (Code.push value)
  | .name position name => do
      let cell ← anchor position (valueOf signatures params name)
      return [cell]
  | .call position name arguments => do
      let cell ← anchor position
        (callCell signatures params name arguments.length)
      let code ← emitAll signatures params arguments
      return code ++ [cell]
  | .element position name indices => do
      let cell ← anchor position
        (elementCell signatures params name indices.length)
      let code ← emitAll signatures params indices
      return code ++ [cell]
  | .negate _ operand =>
      match negatedLiteral? operand with
      | some value => .ok (Code.push value)
      | none => do
          let code ← emit signatures params operand
          return code ++ [.op .negate]
  | .binary _ op left right =>
      if op = .pow ∧ isTwo right then do
        let code ← emit signatures params left
        return code ++ [.op .square]
      else do
        let leftCode ← emit signatures params left
        let rightCode ← emit signatures params right
        return leftCode ++ rightCode ++ [.op (.binary op)]

/-- The programs of several expressions, one after the other. -/
def emitAll
    (signatures : Signatures)
    (params : List String) :
    List Expr → Except Diagnostic Code
  | [] => .ok []
  | first :: rest => do
      let code ← emit signatures params first
      let others ← emitAll signatures params rest
      return code ++ others

end

/-- The program of an expression, checked to leave exactly one value. -/
def expr (signatures : Signatures) (params : List String) (source : Expr) :
    Except Diagnostic Code := do
  let code ← emit signatures params source
  match Code.check code with
  | .ok () => return code
  | .error fault => throw ⟨.internal fault.message, source.position⟩

/-- The first name that stands in a list for the second time. -/
def firstRepeat? (seen : List String) : List String → Option String
  | [] => none
  | name :: rest =>
      if seen.contains name then some name
      else firstRepeat? (seen ++ [name]) rest

/-- What a statement declares, if anything. -/
def declaration? : Action → Option (String × Signature)
  | .scalar name _ => some (name, .scalar)
  | .function name params _ => some (name, .function params.length)
  | .curve name _ => some (name, .curve)
  | .array name sizes _ =>
      some (name,
        .array (match sizes with | some sizes => sizes.length | none => 1))
  | .assign _ _ _ => none
  | .print _ => none

/-- Why a declaration is refused before anything is compiled. -/
def declarationFault? (action : Action) : Option DefinitionFault :=
  match action with
  | .function _ params _ => (firstRepeat? [] params).map .repeatedParam
  | .array _ (some sizes) _ =>
      if Grid.maxRank < sizes.length then
        some (.tooManyDimensions sizes.length) else none
  | _ => none

/-- Declare what a statement declares. -/
def declareStatement (signatures : Signatures) (statement : Statement) :
    Except Diagnostic Signatures :=
  match declaration? statement.action with
  | none => .ok signatures
  | some (name, signature) =>
      match declarationFault? statement.action with
      | some fault => .error ⟨.invalid name fault, statement.position⟩
      | none =>
          if (Builtin.ofName? name).isSome then
            .error ⟨.invalid name .builtinName, statement.position⟩
          else .ok (signatures.declare name signature)

/--
Declare every name of a source; of several declarations of a name the last one
counts.
-/
def declareAll (signatures : Signatures) (program : List Statement) :
    Except Diagnostic Signatures :=
  program.foldlM declareStatement signatures

end Compile

end Formulary
