import Formulary.Proofs.Eval.Fitted
import Formulary.Proofs.Load.Loaded
import Formulary.Proofs.Load.Signatures

namespace Formulary

open Stateful

/-!
# Loads after which references fit

All references of a source are compiled against the last declaration of each
name, while its entries are bound one by one.  When the source is loaded, the
declarations are those of the entries, so that every reference it holds fits.
References that were loaded before go on fitting when their names keep their
signatures.
-/

namespace Compile

variable
  {signatures : Signatures}
  {params : List String}

/-- A called name is not that of a parameter. -/
theorem not_mem_of_callCell
    {name : String}
    {count : Nat}
    {cell : Cell}
    (resolved : callCell signatures params name count = .ok cell) :
    name ∉ params := by
  intro isParam
  have contained : params.contains name = true := by simpa using isParam
  simp only [callCell, calleeOf, contained, if_true] at resolved
  cases resolved

/-- An indexed name is that of an array and not that of a parameter. -/
theorem declared_of_elementCell
    {name : String}
    {count : Nat}
    (resolved :
      elementCell signatures params name count = .ok (.element name count)) :
    name ∉ params ∧ signatures.get? name = some (.array count) := by
  unfold elementCell rankOf at resolved
  split at resolved
  · cases resolved
  · rename_i rank ranked
    split at resolved
    · cases resolved
      split at ranked
      · cases ranked
      · rename_i notParam
        split at ranked <;> cases ranked
        rename_i declared
        exact ⟨by simpa using notParam, declared⟩
    · cases resolved

/-- Cells fit the signatures they are compiled against. -/
theorem Emitted.fits
    {cell : Cell}
    (emitted : Emitted signatures params cell) :
    cell.Fits signatures.get? params := by
  intro name reference
  cases emitted with
  | literal | negate | square | binary => cases reference
  | name resolved =>
      cases reference
      unfold valueOf at resolved
      split at resolved
      · rename_i isParam
        rw [if_pos (by simpa using isParam)]
        rfl
      · rename_i notParam
        rw [if_neg (by simpa using notParam)]
        split at resolved <;> cases resolved
        rename_i declared
        exact declared.symm
  | call resolved =>
      have notParam := not_mem_of_callCell resolved
      rcases callCell_cases resolved with
          ⟨builtin, -, rfl, -⟩ | ⟨-, rfl, declared, -⟩ | ⟨-, rfl, declared⟩
      · cases reference
      · cases reference
        rw [if_neg notParam, declared]
        rfl
      · cases reference
        rw [if_neg notParam, declared]
        rfl
  | element resolved =>
      cases reference
      obtain ⟨notParam, declared⟩ := declared_of_elementCell resolved
      rw [if_neg notParam, declared]
      rfl

/-- A compiled program fits the signatures it is compiled against. -/
theorem fits_of_expr
    {tree : Expr}
    {code : Code}
    (compiled : expr signatures params tree = .ok code) :
    ∀ cell ∈ code, cell.Fits signatures.get? params := by
  intro cell member
  exact (emitted_of_emit tree (emit_of_expr compiled).1 cell member).fits

end Compile

namespace Load

/-- The entry a statement binds fits the signatures of the whole source. -/
theorem Effect.fits
    {signatures : Signatures}
    {config : Config}
    {action : Action}
    {before after : Bindings}
    (effect : Effect signatures config action before after)
    (fits : ∀ entry ∈ before.entries, entry.Fits signatures.get?) :
    ∀ entry ∈ after.entries, entry.Fits signatures.get? := by
  cases effect with
  | scalar compiled =>
      refine Bindings.forall_mem_insert ?_ fits
      intro code isProgram
      obtain rfl := List.mem_singleton.mp isProgram
      exact Compile.fits_of_expr compiled
  | function compiled =>
      refine Bindings.forall_mem_insert ?_ fits
      intro code isProgram
      obtain rfl := List.mem_singleton.mp isProgram
      exact Compile.fits_of_expr compiled
  | curve =>
      refine Bindings.forall_mem_insert ?_ fits
      intro code isProgram
      cases isProgram
  | array sized small compiled =>
      refine Bindings.forall_mem_insert ?_ fits
      intro code isProgram
      rcases Grid.mem_ofElements isProgram with isWritten | rfl
      · obtain ⟨element, -, compiles⟩ :=
          exists_of_mem_programs compiled isWritten
        exact Compile.fits_of_expr compiles
      · intro cell member name reference
        obtain rfl := List.mem_singleton.mp member
        cases reference
  | assign known compiled set =>
      refine Bindings.forall_mem_insert ?_ fits
      have old := fits _ (Bindings.mem_of_get? known).1
      intro code isProgram
      obtain ⟨offset, -, rfl⟩ := Grid.of_set set
      simp only [Entry.programs, Array.toList_setIfInBounds] at isProgram
      rcases List.mem_or_eq_of_mem_set isProgram with isOld | rfl
      · exact old code isOld
      · exact Compile.fits_of_expr compiled
  | print => exact fits

end Load

/--
References go on fitting when the names they refer to keep their signatures.
-/
theorem Entry.Fits.mono
    {declared later : String → Option Signature}
    {entry : Entry}
    (fits : entry.Fits declared)
    (kept : ∀ name signature,
      declared name = some signature → later name = some signature) :
    entry.Fits later := by
  intro code isProgram cell member name reference
  have expected := fits code isProgram cell member name reference
  by_cases isParam : name ∈ entry.params
  · rw [if_pos isParam] at expected ⊢
    exact expected
  · rw [if_neg isParam] at expected ⊢
    obtain ⟨signature, made⟩ := Cell.exists_signature? reference
    rw [made] at expected ⊢
    exact (kept name signature expected.symm).symm

end Formulary
