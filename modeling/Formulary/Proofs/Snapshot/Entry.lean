import Formulary.Machine.Snapshot
import Formulary.Proofs.Snapshot.Wire

namespace Formulary

/-!
# Snapshots read back

The format of entries is lawful: entries whose lists and texts have lengths
that fit a machine word, and whose arrays and tables are valid, are read back;
all others are refused.
-/

namespace Wire

/-- A text whose length fits a machine word. -/
def TextFits (text : String) : Prop :=
  text.utf8ByteSize < 2 ^ 64

/-- A list whose length fits a machine word and whose items fit. -/
def ListFits (fits : α → Prop) (values : List α) : Prop :=
  values.length < 2 ^ 64 ∧ ∀ value ∈ values, fits value

/-- A cell whose texts and numbers fit. -/
def CellFits : Cell → Prop
  | .literal (.string text) => TextFits text
  | .literal _ => True
  | .variable name => TextFits name
  | .lookup name => TextFits name
  | .call name arity => TextFits name ∧ arity < 2 ^ 64
  | .element name rank => TextFits name ∧ rank < 2 ^ 64
  | .op _ => True

/-- A definition whose parts fit; arrays and tables are valid. -/
def DefinitionFits : Definition → Prop
  | .scalar program => ListFits CellFits program
  | .array array =>
      (ListFits (fun size => size < 2 ^ 64) array.dims ∧
        ListFits (ListFits CellFits) array.elements.toList) ∧ array.Valid
  | .function params body => ListFits TextFits params ∧ ListFits CellFits body
  | .curve table => table.points.length < 2 ^ 64 ∧ table.Valid

/-- An entry whose parts fit. -/
def EntryFits (entry : Entry) : Prop :=
  TextFits entry.name ∧ DefinitionFits entry.definition

/-- A lawful format behind the number of an alternative. -/
theorem accepts_behind
    {inner : Wire α}
    {fits : α → Prop}
    (law : inner.Law fits)
    {alternatives : Nat → Option (ByteReader β)}
    (number : Nat)
    (build : α → β)
    (small : number < 2 ^ 32)
    (known : alternatives number = some (alternative inner build))
    (a : α)
    (fit : fits a)
    (rest : List UInt8) :
    readTagged alternatives (tag.write number ++ inner.write a ++ rest) =
      .ok (build a, rest) := by
  rw [List.append_assoc, readTagged_write number small known]
  exact alternative_accepts law build fit rest

/-- What does not fit is refused behind the number of an alternative, too. -/
theorem refuses_behind
    {inner : Wire α}
    {fits : α → Prop}
    (law : inner.Law fits)
    {alternatives : Nat → Option (ByteReader β)}
    (number : Nat)
    {build : α → β}
    (small : number < 2 ^ 32)
    (known : alternatives number = some (alternative inner build))
    (a : α)
    (misfit : ¬ fits a)
    (rest : List UInt8) :
    ∃ fault,
      readTagged alternatives (tag.write number ++ inner.write a ++ rest) =
      .error fault := by
  rw [List.append_assoc, readTagged_write number small known]
  exact alternative_refuses law build misfit rest

/-- An alternative without contents is its number alone. -/
theorem accepts_plain
    {alternatives : Nat → Option (ByteReader β)}
    (number : Nat)
    {b : β}
    (small : number < 2 ^ 32)
    (known : alternatives number = some fun bytes => .ok (b, bytes))
    (rest : List UInt8) :
    readTagged alternatives (tag.write number ++ rest) = .ok (b, rest) := by
  rw [readTagged_write number small known]

theorem law_builtin : builtin.Law (fun _ => True) :=
  law_enum (fun function => by cases function <;> decide) (by decide)

theorem law_op : op.Law (fun _ => True) := by
  constructor
  · intro operation _ rest
    change readTagged _ _ = _
    cases operation with
    | builtin₁ function =>
            exact accepts_behind law_builtin 15 Op.builtin₁ (by decide) rfl
              function trivial rest
    | builtin₂ function =>
            exact accepts_behind law_builtin 16 Op.builtin₂ (by decide) rfl
              function trivial rest
    | negate => exact accepts_plain 5 (by decide) rfl rest
    | square => exact accepts_plain 6 (by decide) rfl rest
    | nint => exact accepts_plain 7 (by decide) rfl rest
    | sign => exact accepts_plain 8 (by decide) rfl rest
    | binary infixed =>
        cases infixed with
        | add => exact accepts_plain 0 (by decide) rfl rest
        | sub => exact accepts_plain 1 (by decide) rfl rest
        | mul => exact accepts_plain 2 (by decide) rfl rest
        | div => exact accepts_plain 3 (by decide) rfl rest
        | pow => exact accepts_plain 4 (by decide) rfl rest
        | lt => exact accepts_plain 9 (by decide) rfl rest
        | le => exact accepts_plain 10 (by decide) rfl rest
        | gt => exact accepts_plain 11 (by decide) rfl rest
        | ge => exact accepts_plain 12 (by decide) rfl rest
        | eq => exact accepts_plain 13 (by decide) rfl rest
        | ne => exact accepts_plain 14 (by decide) rfl rest
  · intro operation absurdity
    exact (absurdity trivial).elim

theorem law_counted :
    counted.Law (fun pair => TextFits pair.1 ∧ pair.2 < 2 ^ 64) :=
  law_pair law_string law_nat

theorem law_cell : cell.Law CellFits := by
  constructor
  · intro item fit rest
    change readTagged _ _ = _
    cases item with
    | literal value =>
        cases value with
        | int n =>
            exact accepts_behind law_int 0 (fun n => Cell.literal (.int n))
              (by decide) rfl n trivial rest
        | double x =>
            exact accepts_behind law_double 1
              (fun x => Cell.literal (.double x)) (by decide) rfl x trivial rest
        | string text =>
            exact accepts_behind law_string 2
              (fun text => Cell.literal (.string text))
              (by decide) rfl text fit rest
        | bool truth =>
            exact accepts_behind law_bool 3
              (fun truth => Cell.literal (.bool truth))
              (by decide) rfl truth trivial rest
    | «variable» name =>
        exact accepts_behind law_string 4 Cell.variable (by decide)
          rfl name fit rest
    | lookup name =>
        exact accepts_behind law_string 5 Cell.lookup (by decide)
          rfl name fit rest
    | call name arity =>
        exact accepts_behind law_counted 6 (fun pair => Cell.call pair.1 pair.2)
          (by decide) rfl (name, arity) fit rest
    | element name rank =>
        exact accepts_behind law_counted 7
          (fun pair => Cell.element pair.1 pair.2)
          (by decide) rfl (name, rank) fit rest
    | op operation =>
        exact accepts_behind law_op 8 Cell.op (by decide) rfl
          operation trivial rest
  · intro item misfit rest
    change ∃ fault, readTagged _ _ = _
    cases item with
    | literal value =>
        cases value with
        | int n => exact (misfit trivial).elim
        | double x => exact (misfit trivial).elim
        | string text =>
            exact refuses_behind law_string 2 (by decide) rfl text misfit rest
        | bool truth => exact (misfit trivial).elim
    | «variable» name =>
        exact refuses_behind law_string 4 (by decide) rfl name misfit rest
    | lookup name =>
        exact refuses_behind law_string 5 (by decide) rfl name misfit rest
    | call name arity =>
        exact refuses_behind law_counted 6 (by decide) rfl
          (name, arity) misfit rest
    | element name rank =>
        exact refuses_behind law_counted 7 (by decide) rfl
          (name, rank) misfit rest
    | op operation => exact (misfit trivial).elim

theorem law_code : code.Law (ListFits CellFits) :=
  law_list law_cell

/-- Equivalent conditions make the same law. -/
theorem Law.congr
    {wire : Wire α}
    {fits other : α → Prop}
    (law : wire.Law fits)
    (same : ∀ a, fits a ↔ other a) :
    wire.Law other :=
  ⟨fun fit => law.accepts ((same _).mpr fit),
    fun misfit => law.refuses fun fit => misfit ((same _).mp fit)⟩

theorem law_grid :
    grid.Law (fun array =>
      (ListFits (fun size => size < 2 ^ 64) array.dims ∧
        ListFits (ListFits CellFits) array.elements.toList) ∧ array.Valid) := by
  refine (law_via (law_pair (law_list law_nat) (law_list law_code)) ?_).congr ?_
  · intro array
    by_cases valid : array.Valid
    · exact .inl (if_pos valid)
    · exact .inr (if_neg valid)
  · intro array
    refine and_congr Iff.rfl ?_
    by_cases valid : array.Valid
    · exact iff_of_true (if_pos valid) valid
    · refine iff_of_false ?_ valid
      intro decoded
      have refused : (if array.Valid then some array else none) = none :=
        if_neg valid
      exact absurd (refused.symm.trans decoded) (by simp)

theorem law_point : point.Law (fun _ => True) := by
  refine (law_via (law_pair law_double law_double) ?_).congr ?_
  · intro p
    exact .inl rfl
  · intro p
    exact iff_of_true ⟨⟨trivial, trivial⟩, rfl⟩ trivial

theorem law_curve :
    curve.Law (fun table => table.points.length < 2 ^ 64 ∧ table.Valid) := by
  have decoded (table : Curve) :
      (Curve.ofPoints table.points).toOption =
        if table.Valid then some table else none := by
    by_cases valid : table.Valid
    · rw [if_pos valid]
      simp only [Curve.ofPoints,
        show Curve.fault? table.points = none from valid]
      rfl
    · rw [if_neg valid]
      cases fault : Curve.fault? table.points with
      | none => exact absurd fault valid
      | some reason =>
          simp only [Curve.ofPoints, fault]
          rfl
  refine (law_via (law_list law_point) ?_).congr ?_
  · intro table
    rw [decoded]
    by_cases valid : table.Valid
    · exact .inl (if_pos valid)
    · exact .inr (if_neg valid)
  · intro table
    rw [decoded]
    by_cases valid : table.Valid <;> simp [valid]

theorem law_function :
    function.Law
      (fun pair => ListFits TextFits pair.1 ∧ ListFits CellFits pair.2) :=
  law_pair (law_list law_string) law_code

theorem law_definition : definition.Law DefinitionFits := by
  constructor
  · intro meaning fit rest
    change readTagged _ _ = _
    cases meaning with
    | scalar program =>
        exact accepts_behind law_code 0 Definition.scalar (by decide) rfl
          program fit rest
    | array array =>
        exact accepts_behind law_grid 1 Definition.array (by decide) rfl
          array fit rest
    | function params body =>
        exact accepts_behind law_function 2
          (fun pair => Definition.function pair.1 pair.2)
          (by decide) rfl (params, body) fit rest
    | curve table =>
        exact accepts_behind law_curve 3 Definition.curve (by decide) rfl
          table fit rest
  · intro meaning misfit rest
    change ∃ fault, readTagged _ _ = _
    cases meaning with
    | scalar program =>
        exact refuses_behind law_code 0 (by decide) rfl program misfit rest
    | array array =>
        exact refuses_behind law_grid 1 (by decide) rfl array misfit rest
    | function params body =>
        exact refuses_behind law_function 2 (by decide) rfl
          (params, body) misfit rest
    | curve table =>
        exact refuses_behind law_curve 3 (by decide) rfl table misfit rest

theorem law_entry : entry.Law EntryFits := by
  refine (law_via (law_pair law_string law_definition) ?_).congr ?_
  · intro item
    exact .inl rfl
  · intro item
    exact and_iff_left rfl

/--
Entries are read back from a snapshot when they fit, and refused otherwise.
-/
theorem law_entries : entries.Law (ListFits EntryFits) :=
  law_list law_entry

end Wire

namespace Machine

/--
A machine restored from a snapshot has the entries that were saved, bound again.
-/
theorem scopes_of_restore
    {config : Config}
    {machine restored : Machine}
    (succeeds : restore config machine.snapshot = .ok restored) :
    restored =
      { ofConfig config with scopes :=
        ⟨Bindings.ofEntries machine.entries, []⟩ } := by
  unfold restore snapshot at succeeds
  split at succeeds
  · rename_i entries left read
    cases succeeds
    rw [← List.append_nil (Wire.entries.write machine.entries)] at read
    obtain ⟨rfl, -⟩ := Wire.law_entries.eq_of_read read
    rfl
  · cases succeeds

end Machine

end Formulary
