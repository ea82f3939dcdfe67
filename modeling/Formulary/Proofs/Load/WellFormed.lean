import Formulary.Proofs.Load.Loaded
import Formulary.Proofs.Load.Signatures
import Formulary.Proofs.Number.Double

namespace Formulary

/-!
# Well-formed entries

What the loader guarantees about each entry it stores: its name is not that of
a built-in function, its programs leave one value, its array, parameters or
points have the right shape, and its programs refer to nothing unknown.  The
effect of every statement preserves this.
-/

namespace Grid

/-- The shape of a stored array. -/
structure WellFormed (config : Config) (grid : Grid) : Prop where
  ranked : 1 ≤ grid.dims.length ∧ grid.dims.length ≤ maxRank
  positive : ∀ size ∈ grid.dims, 1 ≤ size
  bounded : grid.dims.prod < wordSize
  filled : grid.elements.size = grid.dims.prod
  limited : grid.elements.size ≤ config.maxArrayElements

theorem capacity_eq_prod (dims : List Nat) : capacity dims = dims.prod :=
  List.prod_eq_foldl.symm

/-- An element count that is not refused is the product of the sizes. -/
theorem prod_of_checkedCapacity
    {dims : List Nat}
    {total : Nat}
    (accepted : checkedCapacity dims = some total) :
    dims.prod = total ∧ total < wordSize := by
  have counted :
      ∀ (sizes : List Nat) (start : Nat), start < wordSize →
        sizes.foldlM
            (fun total size =>
              if total * size < wordSize then some (total * size) else none)
            start = some total →
          start * sizes.prod = total ∧ total < wordSize := by
    intro sizes
    induction sizes with
    | nil =>
        intro start small reached
        cases reached
        simpa using small
    | cons size rest inductionHypothesis =>
        intro start small reached
        by_cases fits : start * size < wordSize
        · simp only [List.foldlM_cons, fits, if_true] at reached
          rw [List.prod_cons, ← Nat.mul_assoc]
          exact inductionHypothesis (start * size) fits reached
        · simp [List.foldlM_cons, fits] at reached
  simpa using counted dims 1 (by decide) accepted

/-- Changing an element keeps the shape of an array. -/
theorem WellFormed.set
    {config : Config}
    {grid changed : Grid}
    (wellFormed : grid.WellFormed config)
    {indices : List Int64}
    {code : Code}
    (succeeds : grid.set indices code = .ok changed) :
    changed.WellFormed config := by
  obtain ⟨offset, -, rfl⟩ := of_set succeeds
  exact
    { ranked := wellFormed.ranked
      positive := wellFormed.positive
      bounded := wellFormed.bounded
      filled := by simpa using wellFormed.filled
      limited := by simpa using wellFormed.limited }

end Grid

namespace Curve

/-- The shape of a stored table. -/
structure WellFormed (curve : Curve) : Prop where
  nonempty : curve.points ≠ []
  finite : ∀ point ∈ curve.points, point.x.isFinite ∧ point.y.isFinite
  increasing : curve.points.Pairwise fun first second => first.x.lt second.x

/-- Steps that are not refused increase all the way. -/
theorem pairwise_of_stepFault?
    {index : Nat}
    {points : List Point}
    (finite : ∀ point ∈ points, point.x.isFinite ∧ point.y.isFinite)
    (accepted : stepFault? index points = none) :
    points.Pairwise fun first second => first.x.lt second.x := by
  have numbers (point : Point) (member : point ∈ points) :
      point.x.isNaN = false :=
    Double.isNaN_of_isFinite (finite point member).1
  have ranked : points.Pairwise fun first second =>
      first.x.rank < second.x.rank := by
    clear finite
    rw [← List.isChain_iff_pairwise]
    induction points generalizing index with
    | nil => exact .nil
    | cons first rest inductionHypothesis =>
        cases rest with
        | nil => exact .singleton first
        | cons second others =>
            simp only [stepFault?] at accepted
            split at accepted
            · cases accepted
            · rename_i above
              refine .cons_cons ?_
                (inductionHypothesis accepted fun point member =>
                  numbers point (List.mem_cons_of_mem first member))
              have one := numbers first (by simp)
              have two := numbers second (by simp)
              simpa [Double.le, one, two] using above
  refine ranked.imp_of_mem ?_
  intro first second firstMember secondMember below
  simpa [Double.lt, numbers first firstMember, numbers second secondMember]
    using below

/-- Points that are not refused make a table. -/
theorem wellFormed_of_ofPoints
    {points : List Point}
    {curve : Curve}
    (accepted : ofPoints points = .ok curve) :
    curve.WellFormed := by
  unfold ofPoints at accepted
  split at accepted
  · cases accepted
  · rename_i faultless
    cases accepted
    unfold fault? at faultless
    split at faultless
    · cases faultless
    · rename_i nonempty
      split at faultless
      · cases faultless
      · rename_i allFinite
        rw [List.findIdx?_eq_none_iff] at allFinite
        have finite :
            ∀ point ∈ points, point.x.isFinite ∧ point.y.isFinite := by
          intro point member
          simpa [isFinitePoint] using allFinite point member
        exact ⟨by simpa using nonempty, finite,
          pairwise_of_stepFault? finite faultless⟩

end Curve

/-- The shape of what a name is bound to. -/
def Definition.WellFormed (config : Config) : Definition → Prop
  | .scalar _ => True
  | .array grid => grid.WellFormed config
  | .function params _ => params ≠ [] ∧ params.Nodup
  | .curve table => table.WellFormed

namespace Entry

/-- The parameters of a function. -/
def params (entry : Entry) : List String :=
  match entry.definition with
  | .function params _ => params
  | _ => []

/-- The programs of an entry refer only to its parameters and to known names. -/
def RefersTo (known : String → Prop) (entry : Entry) : Prop :=
  ∀ code ∈ entry.programs, ∀ cell ∈ code, ∀ name,
    cell.reference? = some name → known name ∨ name ∈ entry.params

/-- What the loader guarantees about an entry when some names are known. -/
structure WellFormed
    (config : Config)
    (known : String → Prop)
    (entry : Entry) :
    Prop where
  notBuiltin : Builtin.ofName? entry.name = none
  checked : entry.Checked
  shaped : entry.definition.WellFormed config
  closed : entry.RefersTo known

/-- An entry stays well-formed when more names become known. -/
theorem WellFormed.mono
    {config : Config}
    {known more : String → Prop}
    {entry : Entry}
    (wellFormed : entry.WellFormed config known)
    (included : ∀ name, known name → more name) :
    entry.WellFormed config more where
  notBuiltin := wellFormed.notBuiltin
  checked := wellFormed.checked
  shaped := wellFormed.shaped
  closed := fun code isProgram cell member name reference =>
    (wellFormed.closed code isProgram cell member name reference).imp_left
      (included name)

end Entry

namespace Compile

/-- A list in which no name is found a second time has no repetition. -/
theorem nodup_of_firstRepeat?
    {seen names : List String}
    (distinct : seen.Nodup)
    (none : firstRepeat? seen names = none) :
    (seen ++ names).Nodup := by
  induction names generalizing seen with
  | nil => simpa using distinct
  | cons name rest inductionHypothesis =>
      simp only [firstRepeat?] at none
      split at none
      · cases none
      · rename_i new
        have extended : (seen ++ [name]).Nodup := by
          rw [List.nodup_append]
          refine ⟨distinct, by simp, ?_⟩
          intro earlier member later isName
          rw [List.mem_singleton.mp isName]
          rintro rfl
          exact new (by simpa using member)
        simpa using inductionHypothesis extended none

/-- Cells of a compiled program refer to parameters and declared names. -/
theorem known_of_expr
    {signatures : Signatures}
    {params : List String}
    {tree : Expr}
    {code : Code}
    (compiled : expr signatures params tree = .ok code)
    {cell : Cell}
    (member : cell ∈ code)
    {name : String}
    (reference : cell.reference? = some name) :
    (signatures.get? name).isSome ∨ name ∈ params :=
  ((emitted_of_emit tree (emit_of_expr compiled).1 cell member).known
    reference).symm

end Compile

namespace Load

section Effects

variable
  {signatures : Signatures}
  {config : Config}

/-- The programs of a declared array refer to declared names. -/
theorem known_ofElements
    {elements : List Expr}
    {programs : List Code}
    (compiled :
      List.Forall₂
        (fun element code => Compile.expr signatures [] element = .ok code)
        elements programs)
    {dims : List Nat}
    {code : Code}
    (isElement : code ∈ (Grid.ofElements dims programs).elements.toList)
    {cell : Cell}
    (member : cell ∈ code)
    {name : String}
    (reference : cell.reference? = some name) :
    (signatures.get? name).isSome := by
  rcases Grid.mem_ofElements isElement with isWritten | rfl
  · obtain ⟨element, -, compiles⟩ := exists_of_mem_programs compiled isWritten
    rcases Compile.known_of_expr compiles member reference with
        declared | isParam
    · exact declared
    · cases isParam
  · obtain rfl := List.mem_singleton.mp member
    cases reference

/-- The shape of a declared array. -/
theorem wellFormed_ofElements
    {name : String}
    {sizes : Option (List Expr)}
    {elements : List Expr}
    {dims : List Nat}
    (wellShaped : (Action.array name sizes elements).WellShaped)
    (accepted : Compile.declarationFault? (.array name sizes elements) = none)
    (sized : SizesOf sizes elements dims)
    (fits : sizeFault? config dims elements.length = none)
    (programs : List Code) :
    (Grid.ofElements dims programs).WellFormed config := by
  obtain ⟨-, sizesGiven, elementsGiven⟩ := wellShaped
  have shape :
      (1 ≤ dims.length ∧ dims.length ≤ Grid.maxRank) ∧ ∀ size ∈ dims,
        1 ≤ size := by
    cases sizes with
    | none =>
        obtain rfl : dims = [elements.length] := sized
        have some := List.length_pos_iff.mpr elementsGiven
        exact ⟨⟨by simp, by simp [Grid.maxRank]⟩,
          by simpa using Nat.succ_le_of_lt some⟩
    | some sizes =>
        obtain ⟨sameLength, bounded⟩ : dims.length = sizes.length ∧ _ := sized
        have some : sizes ≠ [] := by simpa using sizesGiven
        have few : ¬ Grid.maxRank < sizes.length := by
          simpa [Compile.declarationFault?] using accepted
        have positive := List.length_pos_iff.mpr some
        exact ⟨by omega, fun size member => (bounded size member).1⟩
  unfold sizeFault? at fits
  split at fits
  · cases fits
  · rename_i total counted
    obtain ⟨product, small⟩ := Grid.prod_of_checkedCapacity counted
    split at fits
    · cases fits
    · rename_i limited
      have filled :
          (Grid.ofElements dims programs).elements.size = dims.prod := by
        rw [Grid.size_ofElements, Grid.capacity_eq_prod]
      exact
        { ranked := shape.1
          positive := shape.2
          bounded := product ▸ small
          filled := filled
          limited := by omega }

/--
The entry a statement binds is well-formed, when the entries before it are.
-/
theorem Effect.wellFormed
    {action : Action}
    {before after : Bindings}
    (effect : Effect signatures config action before after)
    (wellShaped : action.WellShaped)
    (declares :
      ∀ name signature, Compile.declaration? action = some (name, signature) →
        Compile.Declares action name signature)
    {known : String → Prop}
    (declared : ∀ name, (signatures.get? name).isSome → known name)
    (wellFormed : ∀ entry ∈ before.entries, entry.WellFormed config known) :
    ∀ entry ∈ after.entries, entry.WellFormed config known := by
  have checked :=
    effect.checked fun entry member => (wellFormed entry member).checked
  cases effect with
  | @scalar globals name value code compiled =>
      refine Bindings.forall_mem_insert ?_ wellFormed
      exact
        { notBuiltin := (declares _ _ rfl).notBuiltin
          checked := checked _ (Bindings.mem_insert_self _ _)
          shaped := trivial
          closed := by
            intro program isProgram cell member reference refers
            obtain rfl := List.mem_singleton.mp isProgram
            exact (Compile.known_of_expr compiled member refers).imp_left
              (declared _) }
  | @function globals name params body code compiled =>
      refine Bindings.forall_mem_insert ?_ wellFormed
      have accepted := (declares _ _ rfl).accepted
      have distinct : params.Nodup := by
        simpa using Compile.nodup_of_firstRepeat? List.nodup_nil
          (by simpa [Compile.declarationFault?] using accepted)
      exact
        { notBuiltin := (declares _ _ rfl).notBuiltin
          checked := checked _ (Bindings.mem_insert_self _ _)
          shaped := ⟨wellShaped.2.1, distinct⟩
          closed := by
            intro program isProgram cell member reference refers
            obtain rfl := List.mem_singleton.mp isProgram
            exact (Compile.known_of_expr compiled member refers).imp_left
              (declared _) }
  | @curve globals name pairs table curve read accepted =>
      refine Bindings.forall_mem_insert ?_ wellFormed
      exact
        { notBuiltin := (declares _ _ rfl).notBuiltin
          checked := checked _ (Bindings.mem_insert_self _ _)
          shaped := Curve.wellFormed_of_ofPoints accepted
          closed := by
            intro program isProgram
            cases isProgram }
  | @array globals name sizes elements dims programs sized fits compiled =>
      refine Bindings.forall_mem_insert ?_ wellFormed
      exact
        { notBuiltin := (declares _ _ rfl).notBuiltin
          checked := checked _ (Bindings.mem_insert_self _ _)
          shaped :=
            wellFormed_ofElements wellShaped (declares _ _ rfl).accepted
              sized fits programs
          closed := by
            intro program isProgram cell member reference refers
            exact .inl
              (declared _ (known_ofElements compiled isProgram member refers)) }
  | @assign globals name subscripts value grid changed tuple code found
        compiled set =>
      refine Bindings.forall_mem_insert ?_ wellFormed
      have old := wellFormed _ (Bindings.mem_of_get? found).1
      have shaped : changed.WellFormed config :=
        Grid.WellFormed.set old.shaped set
      exact
        { notBuiltin := old.notBuiltin
          checked := checked _ (Bindings.mem_insert_self _ _)
          shaped := shaped
          closed := by
            intro program isProgram cell member reference refers
            obtain ⟨offset, -, rfl⟩ := Grid.of_set set
            simp only [Entry.programs, Array.toList_setIfInBounds] at isProgram
            rcases List.mem_or_eq_of_mem_set isProgram with isOld | rfl
            · exact old.closed program isOld cell member reference refers
            · exact (Compile.known_of_expr compiled member refers).imp_left
                (declared _) }
  | print => exact wellFormed

/-- Names stay distinct when a statement is carried out. -/
theorem Effect.nodup
    {action : Action}
    {before after : Bindings}
    (effect : Effect signatures config action before after)
    (distinct : before.names.Nodup) :
    after.names.Nodup := by
  cases effect <;> first
    | exact Bindings.nodup_names_insert distinct _
    | exact distinct

/-- No name is lost when a statement is carried out. -/
theorem Effect.mem_names
    {action : Action}
    {before after : Bindings}
    (effect : Effect signatures config action before after)
    {name : String}
    (member : name ∈ before.names) :
    name ∈ after.names := by
  cases effect <;> first
    | exact Bindings.mem_names_insert.mpr (.inr member)
    | exact member

end Effects

end Load

end Formulary
