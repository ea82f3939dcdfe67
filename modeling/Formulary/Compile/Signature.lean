import Formulary.Entry

namespace Formulary

/-!
# Signatures

What a compiler has to know about a name to refer to it: its kind, and how many
arguments or indices it takes.
-/

/-- The kind of a name with its arity or rank. -/
inductive Signature where
  | scalar
  | array (rank : Nat)
  | function (arity : Nat)
  | curve
deriving Repr, DecidableEq, Inhabited

def Signature.kind : Signature → Kind
  | .scalar => .scalar
  | .array _ => .array
  | .function _ => .function
  | .curve => .curve

/-- The number of arguments or indices of a signature that has one. -/
def Signature.count? : Signature → Option Nat
  | .array rank => some rank
  | .function arity => some arity
  | _ => none

def Entry.signature (entry : Entry) : Signature :=
  match entry.definition with
  | .scalar _ => .scalar
  | .array grid => .array grid.rank
  | .function params _ => .function params.length
  | .curve _ => .curve

/-- Declared signatures, the latest first. -/
structure Signatures where
  declared : List (String × Signature)
deriving Repr, DecidableEq, Inhabited

namespace Signatures

def empty : Signatures :=
  ⟨[]⟩

/-- The latest signature of a name. -/
def get? (signatures : Signatures) (name : String) : Option Signature :=
  (signatures.declared.find? fun declaration => declaration.1 = name).map
    Prod.snd

/-- Declare a name, which hides what it was before. -/
def declare
    (signatures : Signatures)
    (name : String)
    (signature : Signature) :
    Signatures :=
  ⟨(name, signature) :: signatures.declared⟩

/-- The signatures of entries. -/
def ofEntries (entries : List Entry) : Signatures :=
  entries.foldl (fun signatures entry =>
    signatures.declare entry.name entry.signature) empty

end Signatures

end Formulary
