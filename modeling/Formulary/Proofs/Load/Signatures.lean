import Formulary.Proofs.Load.Effect
import Formulary.Proofs.Entry.Bindings
import Formulary.Proofs.Entry.Grid

namespace Formulary

open Stateful

/-!
# Signatures and entries

The declarations of a source are those that its statements make, the last one of
each name counting, over those that are known before.  Declaring the names of a
source and carrying out its statements go over the same statements.  When both
are done, the signature that is declared for a name is that of the entry the
name is bound to.
-/

namespace Signatures

/-- Declarations over others. -/
def atop (signatures known : Signatures) : Signatures :=
  ⟨signatures.declared ++ known.declared⟩

theorem get?_atop
    (signatures known : Signatures)
    (name : String) :
    (signatures.atop known).get? name =
      (signatures.get? name).or (known.get? name) := by
  simp [get?, atop, List.find?_append, Option.map_or]

theorem atop_empty
    (signatures : Signatures) :
    signatures.atop empty = signatures := by
  simp [atop, empty]

end Signatures

namespace Compile

/-- A declaration that is accepted. -/
structure Declares
    (action : Action)
    (name : String)
    (signature : Signature) :
    Prop where
  declaration : declaration? action = some (name, signature)
  accepted : declarationFault? action = none
  notBuiltin : Builtin.ofName? name = none

/-- Declaring a statement adds what it declares, if anything. -/
theorem of_declareStatement
    {signatures next : Signatures}
    {statement : Statement}
    (succeeds : declareStatement signatures statement = .ok next) :
    (declaration? statement.action = none ∧ next = signatures) ∨
      ∃ name signature, Declares statement.action name signature ∧
        next = signatures.declare name signature := by
  unfold declareStatement at succeeds
  split at succeeds
  · rename_i nothing
    cases succeeds
    exact .inl ⟨nothing, rfl⟩
  · rename_i name signature declared
    split at succeeds
    · cases succeeds
    · rename_i accepted
      split at succeeds
      · cases succeeds
      · rename_i free
        cases succeeds
        exact .inr
          ⟨name, signature, ⟨declared, accepted, by simpa using free⟩, rfl⟩

/-- What the statements of a source declare, the latest first. -/
def declarations (program : List Statement) : Signatures :=
  ⟨(program.filterMap fun statement => declaration? statement.action).reverse⟩

/-- Every declaration of a source is accepted. -/
def Accepted (program : List Statement) : Prop :=
  ∀ statement ∈ program, ∀ name signature,
    declaration? statement.action = some (name, signature) →
      Declares statement.action name signature

theorem declarations_append (first second : List Statement) :
    declarations (first ++ second) =
      (declarations second).atop (declarations first) := by
  simp [declarations, Signatures.atop]

theorem accepted_append
    {first second : List Statement} :
    Accepted (first ++ second) ↔ Accepted first ∧ Accepted second :=
  List.forall_mem_append

theorem declareStatement_eq_ok_iff
    {known signatures : Signatures}
    {statement : Statement} :
    declareStatement known statement = .ok signatures ↔
      Accepted [statement] ∧
        signatures = (declarations [statement]).atop known := by
  constructor
  · intro succeeds
    rcases of_declareStatement succeeds with
        ⟨nothing, rfl⟩ | ⟨name, signature, declares, rfl⟩
    · refine ⟨?_, by simp [declarations, nothing, Signatures.atop]⟩
      intro other member name signature declared
      obtain rfl := List.mem_singleton.mp member
      rw [nothing] at declared
      cases declared
    · refine ⟨?_, by
        simp [declarations, declares.declaration, Signatures.atop,
          Signatures.declare]⟩
      intro other member otherName otherSignature declared
      obtain rfl := List.mem_singleton.mp member
      cases declares.declaration.symm.trans declared
      exact declares
  · rintro ⟨accepted, rfl⟩
    unfold declareStatement
    cases declared : declaration? statement.action with
    | none => simp [declarations, declared, Signatures.atop]
    | some declaration =>
        have declares := accepted statement List.mem_cons_self _ _ declared
        simp [declares.accepted, declares.notBuiltin, declarations, declared,
          Signatures.atop, Signatures.declare]

/--
A source is declared when its declarations are accepted, whatever is known
before.
-/
theorem declareAll_eq_ok_iff
    {known signatures : Signatures}
    {program : List Statement} :
    declareAll known program = .ok signatures ↔
      Accepted program ∧ signatures = (declarations program).atop known := by
  induction program generalizing known with
  | nil =>
      have nothing : declareAll known [] = .ok known := rfl
      simp [nothing, Accepted, declarations, Signatures.atop, eq_comm]
  | cons first rest inductionHypothesis =>
      have steps :
          declareAll known (first :: rest) =
            (declareStatement known first >>= fun next =>
              declareAll next rest) :=
        rfl
      rw [steps, ← List.singleton_append, accepted_append, declarations_append]
      simp only [except_bind_eq_ok, declareStatement_eq_ok_iff,
        inductionHypothesis]
      constructor
      · rintro ⟨_, ⟨acceptedFirst, rfl⟩, acceptedRest, rfl⟩
        exact ⟨⟨acceptedFirst, acceptedRest⟩, by simp [Signatures.atop]⟩
      · rintro ⟨⟨acceptedFirst, acceptedRest⟩, rfl⟩
        exact ⟨_, ⟨acceptedFirst, rfl⟩, acceptedRest, by simp [Signatures.atop]⟩

end Compile

namespace Signatures

@[simp]
theorem get?_declare_self
    (signatures : Signatures)
    (name : String)
    (signature : Signature) :
    (signatures.declare name signature).get? name = some signature := by
  simp [get?, declare]

theorem get?_declare_of_ne
    (signatures : Signatures)
    {name other : String}
    (different : name ≠ other)
    (signature : Signature) :
    (signatures.declare name signature).get? other = signatures.get? other := by
  simp [get?, declare, different]

/-- Signatures that are those of the entries names are bound to. -/
def Describe (signatures : Signatures) (bindings : Bindings) : Prop :=
  ∀ name, signatures.get? name = (bindings.get? name).map Entry.signature

namespace Describe

/-- Declaring a name and binding an entry of that signature. -/
theorem insert
    {signatures : Signatures}
    {bindings : Bindings}
    (describe : signatures.Describe bindings)
    (entry : Entry) :
    (signatures.declare entry.name entry.signature).Describe
      (bindings.insert entry) := by
  intro name
  by_cases same : entry.name = name
  · subst same
    simp
  · rw [get?_declare_of_ne signatures same,
      Bindings.get?_insert_of_ne bindings same]
    exact describe name

/-- Binding an entry of the signature its name has already. -/
theorem rebind
    {signatures : Signatures}
    {bindings : Bindings}
    (describe : signatures.Describe bindings)
    {entry : Entry}
    (known : signatures.get? entry.name = some entry.signature) :
    signatures.Describe (bindings.insert entry) := by
  intro name
  by_cases same : entry.name = name
  · subst same
    simp [known]
  · rw [Bindings.get?_insert_of_ne bindings same]
    exact describe name

/-- The signatures of entries with distinct names. -/
theorem ofEntries
    {bindings : Bindings}
    (distinct : bindings.names.Nodup) :
    (Signatures.ofEntries bindings.entries).Describe bindings := by
  intro name
  have folded :
      ∀ (entries : List Entry) (signatures : Signatures),
        (entries.foldl
          (fun known entry => known.declare entry.name entry.signature)
          signatures).get? name =
          ((entries.reverse.find? fun entry => entry.name = name).map
            Entry.signature).or (signatures.get? name) := by
    intro entries
    induction entries with
    | nil =>
        intro signatures
        rfl
    | cons first rest inductionHypothesis =>
        intro signatures
        rw [List.foldl_cons, inductionHypothesis, List.reverse_cons,
          List.find?_append]
        by_cases same : first.name = name
        · subst same
          cases rest.reverse.find? fun entry => entry.name = first.name <;> simp
        · rw [get?_declare_of_ne signatures same]
          simp [same]
  have nothing : empty.get? name = none := rfl
  rw [Signatures.ofEntries, folded, nothing, Option.or_none]
  congr 1
  -- With distinct names the first entry of a name is the last one, too.
  cases found : bindings.get? name with
  | none =>
      rw [Bindings.get?, List.find?_eq_none] at found
      rw [List.find?_eq_none]
      intro entry member
      exact found entry (List.mem_reverse.mp member)
  | some entry =>
      obtain ⟨member, named⟩ := Bindings.mem_of_get? found
      cases last : bindings.entries.reverse.find? fun entry =>
          entry.name = name with
      | none =>
          rw [List.find?_eq_none] at last
          exact absurd named
            (by simpa using last entry (List.mem_reverse.mpr member))
      | some other =>
          have otherMember :=
            List.mem_reverse.mp (List.mem_of_find?_eq_some last)
          have otherNamed : other.name = name := by
            simpa using List.find?_some last
          have byName := Bindings.get?_of_mem distinct otherMember
          rw [otherNamed, found] at byName
          exact byName.symm

end Describe

end Signatures

namespace Load

/-- Carrying out a statement keeps up with declaring it. -/
theorem Effect.describe
    {signatures known next : Signatures}
    {config : Config}
    {statement : Statement}
    {before after : Bindings}
    (effect : Effect signatures config statement.action before after)
    (declares : Compile.declareStatement known statement = .ok next)
    (describe : known.Describe before) :
    next.Describe after := by
  obtain ⟨position, action⟩ := statement
  rcases Compile.of_declareStatement declares with
      ⟨nothing, rfl⟩ | ⟨name, signature, declared, rfl⟩
  · cases effect with
    | scalar | function | curve | array => cases nothing
    | @assign globals name subscripts value grid changed tuple code found
          compiled set =>
        refine describe.rebind ?_
        obtain ⟨offset, -, rfl⟩ := Grid.of_set set
        rw [describe name, found]
        rfl
    | print => exact describe
  · have declaration := declared.declaration
    cases effect with
    | scalar =>
        cases declaration
        exact describe.insert ⟨_, .scalar _⟩
    | function =>
        cases declaration
        exact describe.insert ⟨_, .function _ _⟩
    | curve =>
        cases declaration
        exact describe.insert ⟨_, .curve _⟩
    | @array globals name sizes elements dims programs sized fits compiled =>
        have inserted :=
          describe.insert ⟨name, .array (Grid.ofElements dims programs)⟩
        cases sizes with
        | some sizes =>
            cases declaration
            have ranked : dims.length = sizes.length := sized.1
            simp only [Entry.signature, Grid.rank, Grid.ofElements,
              ranked] at inserted
            exact inserted
        | none =>
            cases declaration
            obtain rfl : dims = [elements.length] := sized
            exact inserted
    | assign => cases declaration
    | print => cases declaration

/-- When a source is loaded, its signatures are those of the entries. -/
theorem Effects.describe
    {signatures known final : Signatures}
    {config : Config}
    {program : List Statement}
    {before after : Bindings}
    (effects : Effects signatures config program before after)
    (declares : Compile.declareAll known program = .ok final)
    (describe : known.Describe before) :
    final.Describe after := by
  induction effects generalizing known with
  | nil =>
      cases declares
      exact describe
  | cons first rest inductionHypothesis =>
      obtain ⟨next, declaresFirst, declaresRest⟩ :=
        except_bind_eq_ok.mp declares
      exact inductionHypothesis declaresRest
        (first.describe declaresFirst describe)

end Load

end Formulary
