import Formulary.Proofs.Compile.Balanced
import Formulary.Proofs.Load.Signatures
import Formulary.Proofs.Source.Relocation

namespace Formulary

open Stateful

/-!
# Compiling against more declarations

What compiles against some declarations compiles to the same program when more
names are declared, wherever the source stands, and a source declares the same
names wherever it stands.
-/

namespace Signatures

/-- Whatever is declared is declared with the same signature. -/
def Extends (signatures other : Signatures) : Prop :=
  ∀ name signature,
    signatures.get? name = some signature → other.get? name = some signature

theorem Extends.ofEq
    {signatures other : Signatures}
    (same : ∀ name, signatures.get? name = other.get? name) :
    signatures.Extends other :=
  fun name _ declared => (same name).symm.trans declared

end Signatures

namespace Compile

section Names

variable
  {signatures other : Signatures}
  (grows : signatures.Extends other)
  {params : List String}
  {name : String}
  {cell : Cell}

include grows

theorem valueOf_extends
    (resolved : valueOf signatures params name = .ok cell) :
    valueOf other params name = .ok cell := by
  unfold valueOf at resolved ⊢
  split at resolved
  · rename_i isParam
    rw [if_pos isParam]
    exact resolved
  · rename_i notParam
    rw [if_neg notParam]
    split at resolved
    · rename_i declared
      rw [grows name _ declared]
      exact resolved
    · cases resolved
    · cases resolved

theorem calleeOf_extends
    {arity : Nat}
    (resolved : calleeOf signatures params name = .ok (cell, arity)) :
    calleeOf other params name = .ok (cell, arity) := by
  unfold calleeOf at resolved ⊢
  split at resolved
  · cases resolved
  · rename_i notParam
    rw [if_neg notParam]
    split at resolved
    · exact resolved
    · split at resolved
      · rename_i declared
        rw [grows name _ declared]
        exact resolved
      · rename_i declared
        rw [grows name _ declared]
        exact resolved
      · cases resolved
      · cases resolved

theorem rankOf_extends
    {rank : Nat}
    (resolved : rankOf signatures params name = .ok rank) :
    rankOf other params name = .ok rank := by
  unfold rankOf at resolved ⊢
  split at resolved
  · cases resolved
  · rename_i notParam
    rw [if_neg notParam]
    split at resolved
    · rename_i declared
      rw [grows name _ declared]
      exact resolved
    · cases resolved
    · cases resolved

theorem callCell_extends
    {count : Nat}
    (resolved : callCell signatures params name count = .ok cell) :
    callCell other params name count = .ok cell := by
  unfold callCell at resolved ⊢
  split at resolved
  · cases resolved
  · rename_i target arity callee
    rw [calleeOf_extends grows callee]
    exact resolved

theorem elementCell_extends
    {count : Nat}
    (resolved : elementCell signatures params name count = .ok cell) :
    elementCell other params name count = .ok cell := by
  unfold elementCell at resolved ⊢
  split at resolved
  · cases resolved
  · rename_i rank ranked
    rw [rankOf_extends grows ranked]
    exact resolved

end Names

theorem anchor_of_ok
    {result : Except CompileFault α}
    {a : α}
    (succeeds : result = .ok a)
    (position : Position) :
    anchor position result = .ok a := by
  rw [succeeds]
  rfl

section Trees

variable
  (move : Position → Position)
  {signatures other : Signatures}
  {params : List String}

theorem negatedLiteral?_relocate (tree : Expr) :
    negatedLiteral? (tree.relocate move) = negatedLiteral? tree := by
  cases tree with
  | literal position value => cases value <;> rfl
  | _ => rfl

theorem isTwo_relocate
    (tree : Expr) :
    isTwo (tree.relocate move) = isTwo tree := by
  cases tree with
  | literal position value => cases value <;> rfl
  | _ => rfl

mutual

theorem emit_extends
    (grows : signatures.Extends other)
    (tree : Expr)
    {code : Code}
    (compiled : emit signatures params tree = .ok code) :
    emit other params (tree.relocate move) = .ok code := by
  cases tree with
  | literal position value => exact compiled
  | name position name =>
      obtain ⟨cell, resolved, last⟩ := except_bind_eq_ok.mp compiled
      exact except_bind_eq_ok.mpr
        ⟨cell, anchor_of_ok (valueOf_extends grows (ok_of_anchor resolved)) _,
          last⟩
  | call position name arguments =>
      obtain ⟨cell, resolved, rest⟩ := except_bind_eq_ok.mp compiled
      obtain ⟨argumentCode, argumentsCompile, last⟩ := except_bind_eq_ok.mp rest
      rw [Expr.relocate, emit, Expr.length_relocateAll]
      exact except_bind_eq_ok.mpr
        ⟨cell, anchor_of_ok (callCell_extends grows (ok_of_anchor resolved)) _,
          except_bind_eq_ok.mpr
            ⟨argumentCode, emitAll_extends grows arguments argumentsCompile,
              last⟩⟩
  | element position name indices =>
      obtain ⟨cell, resolved, rest⟩ := except_bind_eq_ok.mp compiled
      obtain ⟨indexCode, indicesCompile, last⟩ := except_bind_eq_ok.mp rest
      rw [Expr.relocate, emit, Expr.length_relocateAll]
      exact except_bind_eq_ok.mpr
        ⟨cell, anchor_of_ok
          (elementCell_extends grows (ok_of_anchor resolved)) _,
          except_bind_eq_ok.mpr
            ⟨indexCode, emitAll_extends grows indices indicesCompile, last⟩⟩
  | negate position operand =>
      simp only [Expr.relocate, emit, negatedLiteral?_relocate] at compiled ⊢
      split at compiled
      · exact compiled
      · obtain ⟨operandCode, operandCompiles, last⟩ :=
          except_bind_eq_ok.mp compiled
        exact except_bind_eq_ok.mpr
          ⟨operandCode, emit_extends grows operand operandCompiles, last⟩
  | binary position op left right =>
      simp only [Expr.relocate, emit, isTwo_relocate] at compiled ⊢
      split at compiled
      · rename_i isSquare
        rw [if_pos isSquare]
        obtain ⟨baseCode, baseCompiles, last⟩ := except_bind_eq_ok.mp compiled
        exact except_bind_eq_ok.mpr
          ⟨baseCode, emit_extends grows left baseCompiles, last⟩
      · rename_i notSquare
        rw [if_neg notSquare]
        obtain ⟨leftCode, leftCompiles, rest⟩ := except_bind_eq_ok.mp compiled
        obtain ⟨rightCode, rightCompiles, last⟩ := except_bind_eq_ok.mp rest
        exact except_bind_eq_ok.mpr ⟨leftCode,
          emit_extends grows left leftCompiles,
          except_bind_eq_ok.mpr
            ⟨rightCode, emit_extends grows right rightCompiles, last⟩⟩

theorem emitAll_extends
    (grows : signatures.Extends other)
    (trees : List Expr)
    {code : Code}
    (compiled : emitAll signatures params trees = .ok code) :
    emitAll other params (Expr.relocateAll move trees) = .ok code := by
  cases trees with
  | nil => exact compiled
  | cons tree rest =>
      obtain ⟨firstCode, firstCompiles, more⟩ := except_bind_eq_ok.mp compiled
      obtain ⟨restCode, restCompiles, last⟩ := except_bind_eq_ok.mp more
      exact except_bind_eq_ok.mpr ⟨firstCode,
        emit_extends grows tree firstCompiles,
        except_bind_eq_ok.mpr
          ⟨restCode, emitAll_extends grows rest restCompiles, last⟩⟩

end

/--
A program that compiles compiles against more declarations, wherever it stands.
-/
theorem expr_extends
    (grows : signatures.Extends other)
    {tree : Expr}
    {code : Code}
    (compiled : expr signatures params tree = .ok code) :
    expr other params (tree.relocate move) = .ok code :=
  expr_eq_ok_iff.mpr (emit_extends move grows tree (expr_eq_ok_iff.mp compiled))

end Trees

section Relocated

variable (move : Position → Position)

theorem declaration?_relocate (action : Action) :
    declaration? (action.relocate move) = declaration? action := by
  cases action with
  | array name sizes elements =>
      cases sizes <;> simp [declaration?, Action.relocate]
  | _ => rfl

theorem declarationFault?_relocate (action : Action) :
    declarationFault? (action.relocate move) = declarationFault? action := by
  cases action with
  | array name sizes elements =>
      cases sizes <;> simp [declarationFault?, Action.relocate]
  | _ => rfl

theorem declarations_relocate (program : List Statement) :
    declarations (program.map (Statement.relocate move)) =
      declarations program := by
  have same :
      ((fun statement : Statement => declaration? statement.action) ∘
        Statement.relocate move) =
        fun statement => declaration? statement.action := by
    funext statement
    exact declaration?_relocate move statement.action
  rw [declarations, List.filterMap_map, same]
  rfl

theorem accepted_relocate
    {program : List Statement} :
    Accepted (program.map (Statement.relocate move)) ↔ Accepted program := by
  have declares (action : Action) (name : String) (signature : Signature) :
      Declares (action.relocate move) name signature ↔
        Declares action name signature := by
    constructor
    · rintro ⟨declaration, accepted, notBuiltin⟩
      rw [declaration?_relocate] at declaration
      rw [declarationFault?_relocate] at accepted
      exact ⟨declaration, accepted, notBuiltin⟩
    · rintro ⟨declaration, accepted, notBuiltin⟩
      refine ⟨?_, ?_, notBuiltin⟩
      · rw [declaration?_relocate, declaration]
      · rw [declarationFault?_relocate, accepted]
  simp only [Accepted, List.forall_mem_map, Statement.relocate,
    declaration?_relocate, declares]

end Relocated

end Compile

end Formulary
