import Formulary.Proofs.Compile.Balanced

namespace Formulary

open Stateful

/-!
# Which expressions compile

A node of an expression is well-kinded when its name can be used as the node
uses it, and offends otherwise.  This is decided by the node alone, the
parameters in scope and the declared signatures.  An expression without
offending nodes compiles; any other is refused at the first offending node, each
node coming before its operands.
-/

namespace Expr

mutual

/--
The nodes of a tree, each before its operands, and operands from left to right.
-/
def nodes : Expr → List Expr
  | .literal position value => [.literal position value]
  | .name position own => [.name position own]
  | .call position callee arguments =>
      .call position callee arguments :: nodesOfAll arguments
  | .element position array indices =>
      .element position array indices :: nodesOfAll indices
  | .negate position operand => .negate position operand :: nodes operand
  | .binary position op left right =>
      .binary position op left right :: (nodes left ++ nodes right)

/-- The nodes of several trees, one tree after the other. -/
def nodesOfAll : List Expr → List Expr
  | [] => []
  | first :: rest => nodes first ++ nodesOfAll rest

end

end Expr

namespace Compile

/--
A name that can be called with a number of arguments; built-in functions come
first.
-/
def Callable (signatures : Signatures) (name : String) (count : Nat) : Prop :=
  match Builtin.ofName? name with
  | some builtin => builtin.arity = count
  | none =>
      signatures.get? name = some (.function count) ∨
        signatures.get? name = some .curve ∧ count = 1

instance (signatures : Signatures) (name : String) (count : Nat) :
    Decidable (Callable signatures name count) := by
  unfold Callable
  split <;> infer_instance

/-- A node whose name can be used as the node uses it. -/
def WellKinded (signatures : Signatures) (params : List String) : Expr → Prop
  | .name _ name => name ∈ params ∨ signatures.get? name = some .scalar
  | .call _ name arguments =>
      name ∉ params ∧ Callable signatures name arguments.length
  | .element _ name indices =>
      name ∉ params ∧ signatures.get? name = some (.array indices.length)
  | .literal _ _ => True
  | .negate _ _ => True
  | .binary _ _ _ _ => True

instance (signatures : Signatures) (params : List String) :
    DecidablePred (WellKinded signatures params)
  | .name _ _ => inferInstanceAs (Decidable (_ ∨ _))
  | .call _ _ _ => inferInstanceAs (Decidable (_ ∧ _))
  | .element _ _ _ => inferInstanceAs (Decidable (_ ∧ _))
  | .literal _ _ => inferInstanceAs (Decidable True)
  | .negate _ _ => inferInstanceAs (Decidable True)
  | .binary _ _ _ _ => inferInstanceAs (Decidable True)

/-- The first node in order that is not well-kinded. -/
def offender?
    (signatures : Signatures)
    (params : List String)
    (tree : Expr) :
    Option Expr :=
  tree.nodes.find? fun node => ¬ WellKinded signatures params node

/--
What nodes say about a result: without an offending node there is one, and
otherwise it is a refusal at the first of them, which is no fault of the
compiler's own.
-/
inductive Judged
    {α : Type}
    (signatures : Signatures)
    (params : List String)
    (nodes : List Expr) :
    Except Diagnostic α → Prop where
  | accepted
      {a : α}
      (clean : ∀ node ∈ nodes, WellKinded signatures params node) :
      Judged signatures params nodes (.ok a)
  | refused
      {fault : CompileFault}
      {earlier later : List Expr}
      {node : Expr}
      (shape : nodes = earlier ++ node :: later)
      (clean : ∀ other ∈ earlier, WellKinded signatures params other)
      (offends : ¬ WellKinded signatures params node)
      (ordinary : ∀ message, fault ≠ .internal message) :
      Judged signatures params nodes (.error ⟨fault, node.position⟩)

section Judgement

variable
  {α β : Type}
  {signatures : Signatures}
  {params : List String}

namespace Judged

/-- Steps one after the other, the second one on the result of the first. -/
theorem bind
    {nodes others : List Expr}
    {first : Except Diagnostic α}
    {rest : α → Except Diagnostic β}
    (judged : Judged signatures params nodes first)
    (further : ∀ a, Judged signatures params others (rest a)) :
    Judged signatures params (nodes ++ others) (first >>= rest) := by
  cases judged with
  | @accepted a clean =>
      have judgedRest := further a
      rw [except_bind_ok]
      generalize rest a = result at judgedRest
      cases judgedRest with
      | accepted cleanRest =>
          exact .accepted (List.forall_mem_append.mpr ⟨clean, cleanRest⟩)
      | @refused fault earlier later node shape cleanRest offends ordinary =>
          have together :
              nodes ++ others = (nodes ++ earlier) ++ node :: later := by
            rw [shape, List.append_assoc]
          have cleanBefore := List.forall_mem_append.mpr ⟨clean, cleanRest⟩
          exact .refused together cleanBefore offends ordinary
  | @refused fault earlier later node shape clean offends ordinary =>
      have together :
          nodes ++ others = earlier ++ node :: (later ++ others) := by
        rw [shape, List.append_assoc, List.cons_append]
      exact .refused together clean offends ordinary

/-- What is done with a result does not matter. -/
theorem map
    {nodes : List Expr}
    {result : Except Diagnostic α}
    (judged : Judged signatures params nodes result)
    (f : α → β) :
    Judged signatures params nodes (do return f (← result)) := by
  have further (a : α) :
      Judged signatures params [] (pure (f a) : Except Diagnostic β) :=
    .accepted nofun
  have both := judged.bind further
  rwa [List.append_nil] at both

/-- A node that cannot offend in front of others. -/
theorem cons
    {node : Expr}
    {nodes : List Expr}
    {result : Except Diagnostic α}
    (harmless : WellKinded signatures params node)
    (judged : Judged signatures params nodes result) :
    Judged signatures params (node :: nodes) result := by
  have here : Judged signatures params [node] (.ok ()) :=
    .accepted (by simpa using harmless)
  exact here.bind fun _ => judged

/-- The reference of a node decides about the node. -/
theorem ofAnchor
    {node : Expr}
    {result : Except CompileFault α}
    (usable : (∃ a, result = .ok a) ↔ WellKinded signatures params node)
    (ordinary : ∀ message, result ≠ .error (.internal message)) :
    Judged signatures params [node] (anchor node.position result) := by
  cases result with
  | ok a =>
      have wellKinded := usable.mp ⟨a, rfl⟩
      exact .accepted (by simpa using wellKinded)
  | error fault =>
      have offends : ¬ WellKinded signatures params node := by
        intro wellKinded
        obtain ⟨a, succeeds⟩ := usable.mpr wellKinded
        cases succeeds
      have alone : [node] = [] ++ node :: [] := rfl
      exact .refused alone nofun offends
        fun message isInternal => ordinary message (congrArg _ isInternal)

variable
  {nodes : List Expr}
  {result : Except Diagnostic α}

theorem exists_ok_iff
    (judged : Judged signatures params nodes result) :
    (∃ a, result = .ok a) ↔ ∀ node ∈ nodes,
      WellKinded signatures params node := by
  cases judged with
  | @accepted a clean => exact ⟨fun _ => clean, fun _ => ⟨a, rfl⟩⟩
  | @refused fault earlier later node shape clean offends ordinary =>
      refine ⟨nofun, fun wellKinded => absurd (wellKinded node ?_) offends⟩
      simp [shape]

/-- A refusal is anchored at the first offending node. -/
theorem anchored
    (judged : Judged signatures params nodes result)
    {node : Expr}
    (first : nodes.find? (fun node => ¬ WellKinded signatures params node) =
      some node) :
    ∃ fault, result = .error ⟨fault, node.position⟩ := by
  cases judged with
  | accepted clean =>
      have offends := List.find?_some first
      exact absurd (clean node (List.mem_of_find?_eq_some first))
        (by simpa using offends)
  | @refused fault earlier later other shape clean offends ordinary =>
      have otherFirst :
          nodes.find? (fun node => ¬ WellKinded signatures params node) =
            some other :=
        List.find?_eq_some_iff_append.mpr
          ⟨by simpa using offends, earlier, later, shape, by simpa using clean⟩
      obtain rfl := Option.some.inj (otherFirst.symm.trans first)
      exact ⟨fault, rfl⟩

theorem ne_internal
    (judged : Judged signatures params nodes result)
    (message : String)
    (position : Position) :
    result ≠ .error ⟨.internal message, position⟩ := by
  intro refused
  cases judged with
  | accepted clean => cases refused
  | refused shape clean offends ordinary =>
      cases refused
      exact ordinary message rfl

end Judged

section Names

variable
  {name : String}
  {count : Nat}

theorem exists_valueOf_iff :
    (∃ cell, valueOf signatures params name = .ok cell) ↔
      name ∈ params ∨ signatures.get? name = some .scalar := by
  constructor
  · rintro ⟨cell, resolved⟩
    unfold valueOf at resolved
    split at resolved
    · rename_i isParam
      exact .inl (by simpa using isParam)
    · split at resolved <;> cases resolved
      rename_i isScalar
      exact .inr isScalar
  · intro usable
    by_cases isParam : name ∈ params
    · simp [valueOf, isParam]
    · have isScalar := usable.resolve_left isParam
      simp [valueOf, isParam, isScalar]

theorem exists_callCell_iff :
    (∃ cell, callCell signatures params name count = .ok cell) ↔
      name ∉ params ∧ Callable signatures name count := by
  unfold Callable
  constructor
  · rintro ⟨cell, resolved⟩
    have visible : name ∉ params := by
      intro isParam
      simp [callCell, calleeOf, isParam] at resolved
    refine ⟨visible, ?_⟩
    rcases callCell_cases resolved with
        ⟨builtin, isBuiltin, -, counted⟩ |
        ⟨noBuiltin, -, isCurve, counted⟩ |
        ⟨noBuiltin, -, isFunction⟩
    · simp [isBuiltin, counted]
    · simp [noBuiltin, isCurve, counted]
    · simp [noBuiltin, isFunction]
  · rintro ⟨visible, callable⟩
    split at callable
    · rename_i builtin isBuiltin
      simp [callCell, calleeOf, visible, isBuiltin, callable]
    · rename_i noBuiltin
      rcases callable with isFunction | ⟨isCurve, counted⟩
      · simp [callCell, calleeOf, visible, noBuiltin, isFunction]
      · simp [callCell, calleeOf, visible, noBuiltin, isCurve, counted]

theorem exists_elementCell_iff :
    (∃ cell, elementCell signatures params name count = .ok cell) ↔
      name ∉ params ∧ signatures.get? name = some (.array count) := by
  constructor
  · rintro ⟨cell, resolved⟩
    unfold elementCell at resolved
    split at resolved
    · cases resolved
    · rename_i rank ranked
      split at resolved
      · rename_i counted
        unfold rankOf at ranked
        split at ranked
        · cases ranked
        · rename_i isNoParam
          split at ranked <;> cases ranked
          rename_i isArray
          exact ⟨by simpa using isNoParam, counted ▸ isArray⟩
      · cases resolved
  · rintro ⟨visible, isArray⟩
    simp [elementCell, rankOf, visible, isArray]

/-- A missing name is no fault of the compiler's own, whatever it is called. -/
theorem undeclared_ne_internal
    {asBuiltin : CompileFault}
    {message : String}
    (ordinary : asBuiltin ≠ .internal message) :
    undeclared name asBuiltin ≠ .internal message := by
  unfold undeclared
  split
  · exact ordinary
  · nofun

theorem valueOf_ne_internal (message : String) :
    valueOf signatures params name ≠ .error (.internal message) := by
  intro refused
  unfold valueOf at refused
  split at refused
  · cases refused
  · split at refused
    · cases refused
    · cases refused
    · exact absurd (Except.error.inj refused) (undeclared_ne_internal nofun)

theorem callCell_ne_internal (message : String) :
    callCell signatures params name count ≠ .error (.internal message) := by
  intro refused
  unfold callCell at refused
  split at refused
  · rename_i callee
    cases refused
    unfold calleeOf at callee
    split at callee
    · cases callee
    · split at callee
      · cases callee
      · split at callee <;> cases callee
  · split at refused <;> cases refused

theorem elementCell_ne_internal (message : String) :
    elementCell signatures params name count ≠ .error (.internal message) := by
  intro refused
  unfold elementCell at refused
  split at refused
  · rename_i ranked
    cases refused
    unfold rankOf at ranked
    split at ranked
    · cases ranked
    · split at ranked
      · cases ranked
      · cases ranked
      · exact absurd (Except.error.inj ranked) (undeclared_ne_internal nofun)
  · split at refused <;> cases refused

end Names

/-- A folded literal and what it stands for are well-kinded. -/
theorem wellKinded_of_negatedLiteral?
    {operand : Expr}
    {value : Value}
    (folded : negatedLiteral? operand = some value) :
    ∀ node ∈ operand.nodes, WellKinded signatures params node := by
  cases operand with
  | literal position own => simp [Expr.nodes, WellKinded]
  | name | call | element | negate | binary => cases folded

theorem wellKinded_of_isTwo
    {exponent : Expr}
    (isTwo : Compile.isTwo exponent = true) :
    ∀ node ∈ exponent.nodes, WellKinded signatures params node := by
  cases exponent with
  | literal position own => simp [Expr.nodes, WellKinded]
  | name | call | element | negate | binary => cases isTwo

mutual

/-- What the nodes of a tree say about its program. -/
theorem judged_emit (tree : Expr) :
    Judged signatures params tree.nodes (emit signatures params tree) := by
  cases tree with
  | literal position value => exact .accepted (by simp [Expr.nodes, WellKinded])
  | name position name =>
      have here : Judged signatures params [.name position name] _ :=
        .ofAnchor exists_valueOf_iff valueOf_ne_internal
      exact here.map fun cell => [cell]
  | call position name arguments =>
      have here : Judged signatures params [.call position name arguments] _ :=
        .ofAnchor exists_callCell_iff callCell_ne_internal
      exact here.bind fun cell =>
        (judged_emitAll arguments).map fun code => code ++ [cell]
  | element position name indices =>
      have here : Judged signatures params [.element position name indices] _ :=
        .ofAnchor exists_elementCell_iff elementCell_ne_internal
      exact here.bind fun cell =>
        (judged_emitAll indices).map fun code => code ++ [cell]
  | negate position operand =>
      refine .cons trivial ?_
      simp only [emit]
      split
      · rename_i value folded
        exact .accepted (wellKinded_of_negatedLiteral? folded)
      · exact (judged_emit operand).map fun code => code ++ [.op .negate]
  | binary position op left right =>
      refine .cons trivial ?_
      simp only [emit]
      split
      · rename_i isSquare
        exact (judged_emit left).bind fun code =>
          .accepted (wellKinded_of_isTwo isSquare.2)
      · exact (judged_emit left).bind fun leftCode =>
          (judged_emit right).map fun rightCode =>
            leftCode ++ rightCode ++ [.op (.binary op)]

/-- What the nodes of several trees say about their programs. -/
theorem judged_emitAll (trees : List Expr) :
    Judged signatures params (Expr.nodesOfAll trees)
      (emitAll signatures params trees) := by
  cases trees with
  | nil => exact .accepted nofun
  | cons tree rest =>
      exact (judged_emit tree).bind fun code =>
        (judged_emitAll rest).map fun others => code ++ others

end

end Judgement

/-- The check behind the compiler changes nothing. -/
theorem expr_eq_emit
    (signatures : Signatures)
    (params : List String)
    (tree : Expr) :
    expr signatures params tree = emit signatures params tree := by
  cases outcome : emit signatures params tree with
  | ok code => exact expr_eq_ok_iff.mpr outcome
  | error diagnostic =>
      rw [expr, outcome]
      rfl

/--
An expression compiles exactly when none of its nodes offends, and is refused at
the first node that does.  The check behind the compiler accepts every program
that is emitted, so no refusal is a fault of the compiler's own.
-/
theorem compiles_iff_wellKinded
    (signatures : Signatures)
    (params : List String)
    (tree : Expr) :
    ((∃ code, expr signatures params tree = .ok code) ↔
        ∀ node ∈ tree.nodes, WellKinded signatures params node) ∧
      (∀ node, offender? signatures params tree = some node →
        ∃ fault, expr signatures params tree = .error ⟨fault, node.position⟩) ∧
      (∀ code,
        emit signatures params tree = .ok code → Code.check code = .ok ()) ∧
      ∀ message position,
        expr signatures params tree ≠ .error ⟨.internal message, position⟩ := by
  have judged :
      Judged signatures params tree.nodes (emit signatures params tree) :=
    judged_emit tree
  rw [expr_eq_emit]
  exact ⟨judged.exists_ok_iff, fun node first => judged.anchored first,
    fun code emitted => (raises_of_emit tree emitted).check, judged.ne_internal⟩

/-- Of two offending arguments the first one is reported. -/
example :
    offender? Signatures.empty []
        (.call ⟨1, 1⟩ "max"
          [.name ⟨1, 5⟩ "missing", .element ⟨1, 14⟩ "missing" []]) =
      some (.name ⟨1, 5⟩ "missing") := by
  rfl

end Compile

end Formulary
