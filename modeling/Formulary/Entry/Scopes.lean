import Formulary.Entry.Bindings

namespace Formulary

/-!
# Scopes

The global scope at the bottom and one frame per active function call above
it.  A scope is known by its index: the global one is 0 and frames count from 1
in the order in which they were entered.
-/

/-- The global scope and the active frames, innermost first. -/
structure Scopes where
  globals : Bindings
  frames : List Bindings
deriving Repr, DecidableEq, Inhabited

namespace Scopes

def empty : Scopes :=
  ⟨Bindings.empty, []⟩

/-- Number of scopes, the global one included. -/
def depth (scopes : Scopes) : Nat :=
  scopes.frames.length + 1

/-- Enter a frame. -/
def push (scopes : Scopes) (frame : Bindings) : Scopes :=
  { scopes with frames := frame :: scopes.frames }

@[simp]
theorem depth_push (scopes : Scopes) (frame : Bindings) :
    (scopes.push frame).depth = scopes.depth + 1 :=
  rfl

/-- Leave the innermost frame; the global scope is never left. -/
def pop? (scopes : Scopes) : Option (Bindings × Scopes) :=
  match scopes.frames with
  | [] => none
  | frame :: outer => some (frame, { scopes with frames := outer })

/-- The scope of a given index. -/
def scope? (scopes : Scopes) : Nat → Option Bindings
  | 0 => some scopes.globals
  | index + 1 => scopes.frames.reverse[index]?

/-- Search every scope, innermost first. -/
def find? (scopes : Scopes) (name : String) : Option Entry :=
  (scopes.frames.findSome? fun frame => frame.get? name) <|>
    scopes.globals.get? name

/-- Search one scope, if given, and then the global one. -/
def resolve?
    (scopes : Scopes)
    (frame : Option Nat)
    (name : String) :
    Option Entry :=
  (do (← scopes.scope? (← frame)).get? name) <|> scopes.globals.get? name

/-- Bind an entry in the global scope. -/
def define (scopes : Scopes) (entry : Entry) : Scopes :=
  { scopes with globals := scopes.globals.insert entry }

end Scopes

end Formulary
