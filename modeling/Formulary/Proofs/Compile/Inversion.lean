import Formulary.Compile.Expr
import Formulary.Proofs.Stateful

namespace Formulary

open Stateful

/-!
# What names and expressions compile to

Each lemma takes one successful step of the compiler apart: which cell a name
becomes, and what is known about the program of an expression.
-/

namespace Compile

variable
  {signatures : Signatures}
  {params : List String}

/-- A built-in function takes as many operands as it has arguments. -/
theorem arity_ofBuiltin
    (builtin : Builtin) :
    (Op.ofBuiltin builtin).arity = builtin.arity := by
  cases builtin <;> rfl

/-- A result that has been anchored at a position. -/
theorem ok_of_anchor
    {position : Position}
    {result : Except CompileFault α}
    {a : α}
    (anchored : anchor position result = .ok a) :
    result = .ok a := by
  cases result with
  | ok b =>
      cases anchored
      rfl
  | error fault => cases anchored

/-- A bare name compiles to a variable. -/
theorem variable_of_valueOf
    {name : String}
    {cell : Cell}
    (resolved : valueOf signatures params name = .ok cell) :
    cell = .variable name := by
  unfold valueOf at resolved
  split at resolved
  · cases resolved
    rfl
  · split at resolved <;> cases resolved
    rfl

/-- A called name compiles to a built-in function, a table or a function. -/
theorem callCell_cases
    {name : String}
    {count : Nat}
    {cell : Cell}
    (resolved : callCell signatures params name count = .ok cell) :
    (∃ builtin,
      Builtin.ofName? name = some builtin ∧ cell = .op (.ofBuiltin builtin) ∧
      count = builtin.arity) ∨
    (Builtin.ofName? name = none ∧ cell = .lookup name ∧
      signatures.get? name = some .curve ∧
      count = 1) ∨
    (Builtin.ofName? name = none ∧ cell = .call name count ∧
      signatures.get? name = some (.function count)) := by
  unfold callCell at resolved
  split at resolved
  · cases resolved
  · rename_i target arity callee
    split at resolved
    · rename_i counted
      cases resolved
      subst counted
      unfold calleeOf at callee
      split at callee
      · cases callee
      · split at callee
        · rename_i builtin isBuiltin
          cases callee
          exact .inl ⟨builtin, isBuiltin, rfl, rfl⟩
        · rename_i notBuiltin
          split at callee
          · rename_i isFunction
            cases callee
            exact .inr (.inr ⟨notBuiltin, rfl, isFunction⟩)
          · rename_i isCurve
            cases callee
            exact .inr (.inl ⟨notBuiltin, rfl, isCurve, rfl⟩)
          · cases callee
          · cases callee
    · cases resolved

/-- The cell of a call takes its arguments. -/
theorem pops_of_callCell
    {name : String}
    {count : Nat}
    {cell : Cell}
    (resolved : callCell signatures params name count = .ok cell) :
    cell.pops = count := by
  rcases callCell_cases resolved with
      ⟨builtin, -, rfl, rfl⟩ | ⟨-, rfl, -, rfl⟩ | ⟨-, rfl, -⟩
  · exact arity_ofBuiltin builtin
  · rfl
  · rfl

/--
A built-in function can be called under every name that no parameter hides.
-/
theorem callCell_builtin
    (builtin : Builtin)
    (visible : builtin.name ∉ params) :
    callCell signatures params builtin.name builtin.arity =
      .ok (.op (.ofBuiltin builtin)) := by
  simp [callCell, calleeOf, Builtin.ofName?_name builtin, visible]

/-- An indexed name compiles to an element. -/
theorem element_of_elementCell
    {name : String}
    {count : Nat}
    {cell : Cell}
    (resolved : elementCell signatures params name count = .ok cell) :
    cell = .element name count := by
  unfold elementCell at resolved
  split at resolved
  · cases resolved
  · split at resolved
    · rename_i counted
      cases resolved
      rw [counted]
    · cases resolved

/-- A cell that the compiler emits. -/
inductive Emitted
    (signatures : Signatures)
    (params : List String) :
    Cell → Prop where
  | literal (value : Value) : Emitted signatures params (.literal value)
  | name
      {name : String}
      (resolved : valueOf signatures params name = .ok (.variable name)) :
      Emitted signatures params (.variable name)
  | call
      {name : String}
      {count : Nat}
      {cell : Cell}
      (resolved : callCell signatures params name count = .ok cell) :
      Emitted signatures params cell
  | element
      {name : String}
      {count : Nat}
      (resolved :
        elementCell signatures params name count = .ok (.element name count)) :
      Emitted signatures params (.element name count)
  | negate : Emitted signatures params (.op .negate)
  | square : Emitted signatures params (.op .square)
  | binary (op : BinaryOp) : Emitted signatures params (.op (.binary op))

/-- A name that is referred to is a parameter or declared. -/
theorem Emitted.known
    {cell : Cell}
    (emitted : Emitted signatures params cell)
    {name : String}
    (reference : cell.reference? = some name) :
    name ∈ params ∨ (signatures.get? name).isSome := by
  cases emitted with
  | literal | negate | square | binary => cases reference
  | name resolved =>
      cases reference
      unfold valueOf at resolved
      split at resolved
      · rename_i isParam
        exact .inl (by simpa using isParam)
      · split at resolved <;> cases resolved
        rename_i declared
        exact .inr (by simp [declared])
  | call resolved =>
      rcases callCell_cases resolved with
          ⟨builtin, -, rfl, -⟩ | ⟨-, rfl, declared, -⟩ | ⟨-, rfl, declared⟩
      · cases reference
      · cases reference
        exact .inr (by simp [declared])
      · cases reference
        exact .inr (by simp [declared])
  | element resolved =>
      cases reference
      unfold elementCell rankOf at resolved
      split at resolved
      · cases resolved
      · rename_i rank ranked
        split at ranked
        · cases ranked
        · split at ranked <;> cases ranked
          rename_i declared
          exact .inr (by simp [declared])

mutual

/-- Every cell of a program is one the compiler emits. -/
theorem emitted_of_emit
    (tree : Expr)
    {code : Code}
    (compiled : emit signatures params tree = .ok code) :
    ∀ cell ∈ code, Emitted signatures params cell := by
  cases tree with
  | literal position value =>
      cases compiled
      simp [Code.push, Emitted.literal]
  | name position name =>
      obtain ⟨cell, resolved, last⟩ := except_bind_eq_ok.mp compiled
      cases last
      have found := ok_of_anchor resolved
      obtain rfl := variable_of_valueOf found
      simpa using Emitted.name found
  | call position name arguments =>
      obtain ⟨cell, resolved, rest⟩ := except_bind_eq_ok.mp compiled
      obtain ⟨argumentCode, argumentsCompile, last⟩ := except_bind_eq_ok.mp rest
      cases last
      exact List.forall_mem_append.mpr
        ⟨emitted_of_emitAll arguments argumentsCompile,
          by simpa using Emitted.call (ok_of_anchor resolved)⟩
  | element position name indices =>
      obtain ⟨cell, resolved, rest⟩ := except_bind_eq_ok.mp compiled
      obtain ⟨indexCode, indicesCompile, last⟩ := except_bind_eq_ok.mp rest
      cases last
      have found := ok_of_anchor resolved
      obtain rfl := element_of_elementCell found
      exact List.forall_mem_append.mpr
        ⟨emitted_of_emitAll indices indicesCompile,
          by simpa using Emitted.element found⟩
  | negate position operand =>
      simp only [emit] at compiled
      split at compiled
      · cases compiled
        simp [Code.push, Emitted.literal]
      · obtain ⟨operandCode, operandCompiles, last⟩ :=
          except_bind_eq_ok.mp compiled
        cases last
        exact List.forall_mem_append.mpr
          ⟨emitted_of_emit operand operandCompiles,
            by simpa using Emitted.negate⟩
  | binary position op left right =>
      simp only [emit] at compiled
      split at compiled
      · obtain ⟨baseCode, baseCompiles, last⟩ := except_bind_eq_ok.mp compiled
        cases last
        exact List.forall_mem_append.mpr ⟨emitted_of_emit left baseCompiles,
          by simpa using Emitted.square⟩
      · obtain ⟨leftCode, leftCompiles, rest⟩ := except_bind_eq_ok.mp compiled
        obtain ⟨rightCode, rightCompiles, last⟩ := except_bind_eq_ok.mp rest
        cases last
        refine List.forall_mem_append.mpr ⟨List.forall_mem_append.mpr
          ⟨emitted_of_emit left leftCompiles,
            emitted_of_emit right rightCompiles⟩, ?_⟩
        simpa using Emitted.binary op

/-- Every cell of several programs is one the compiler emits. -/
theorem emitted_of_emitAll
    (trees : List Expr)
    {code : Code}
    (compiled : emitAll signatures params trees = .ok code) :
    ∀ cell ∈ code, Emitted signatures params cell := by
  cases trees with
  | nil =>
      cases compiled
      simp
  | cons tree rest =>
      obtain ⟨firstCode, firstCompiles, more⟩ := except_bind_eq_ok.mp compiled
      obtain ⟨restCode, restCompiles, last⟩ := except_bind_eq_ok.mp more
      cases last
      exact List.forall_mem_append.mpr
        ⟨emitted_of_emit tree firstCompiles,
          emitted_of_emitAll rest restCompiles⟩

end

/-- The code of a checked program is what the tree emits. -/
theorem emit_of_expr
    {signatures : Signatures}
    {params : List String}
    {tree : Expr}
    {code : Code}
    (compiled : expr signatures params tree = .ok code) :
    emit signatures params tree = .ok code ∧ Code.check code = .ok () := by
  obtain ⟨emitted, emits, rest⟩ := except_bind_eq_ok.mp compiled
  split at rest
  · rename_i accepted
    cases rest
    exact ⟨emits, accepted⟩
  · cases rest

theorem emitAll_nil : emitAll signatures params [] = .ok [] :=
  rfl

theorem emitAll_cons
    {tree : Expr}
    {rest : List Expr}
    {code others : Code}
    (emitted : emit signatures params tree = .ok code)
    (othersEmitted : emitAll signatures params rest = .ok others) :
    emitAll signatures params (tree :: rest) = .ok (code ++ others) := by
  rw [emitAll, emitted, othersEmitted]
  rfl

/-- A call of a built-in function compiles as soon as its arguments do. -/
theorem emit_builtin
    {position : Position}
    {builtin : Builtin}
    {arguments : List Expr}
    {code : Code}
    (visible : builtin.name ∉ params)
    (counted : arguments.length = builtin.arity)
    (emitted : emitAll signatures params arguments = .ok code) :
    emit signatures params (.call position builtin.name arguments) =
      .ok (code ++ [.op (.ofBuiltin builtin)]) := by
  rw [emit, counted, callCell_builtin builtin visible, emitted]
  rfl

section Signatures

variable {other : Signatures}

theorem valueOf_congr
    (same : ∀ name, signatures.get? name = other.get? name)
    (name : String) :
    valueOf signatures params name = valueOf other params name := by
  simp only [valueOf, same]

theorem callCell_congr
    (same : ∀ name, signatures.get? name = other.get? name)
    (name : String)
    (count : Nat) :
    callCell signatures params name count =
      callCell other params name count := by
  simp only [callCell, calleeOf, same]

theorem elementCell_congr
    (same : ∀ name, signatures.get? name = other.get? name)
    (name : String)
    (count : Nat) :
    elementCell signatures params name count =
      elementCell other params name count := by
  simp only [elementCell, rankOf, same]

mutual

/-- A program depends on nothing but the signatures of names. -/
theorem emit_congr
    (same : ∀ name, signatures.get? name = other.get? name)
    (tree : Expr) :
    emit signatures params tree = emit other params tree := by
  cases tree with
  | literal => rfl
  | name position name => simp only [emit, valueOf_congr same]
  | call position name arguments =>
      simp only [emit, callCell_congr same, emitAll_congr same arguments]
  | element position name indices =>
      simp only [emit, elementCell_congr same, emitAll_congr same indices]
  | negate position operand => simp only [emit, emit_congr same operand]
  | binary position op left right =>
      simp only [emit, emit_congr same left, emit_congr same right]

theorem emitAll_congr
    (same : ∀ name, signatures.get? name = other.get? name)
    (trees : List Expr) :
    emitAll signatures params trees = emitAll other params trees := by
  cases trees with
  | nil => rfl
  | cons tree rest =>
      simp only [emitAll, emit_congr same tree, emitAll_congr same rest]

end

theorem expr_congr
    (same : ∀ name, signatures.get? name = other.get? name)
    (tree : Expr) :
    expr signatures params tree = expr other params tree := by
  rw [expr, expr, emit_congr same]

end Signatures

end Compile

end Formulary
