import Formulary.Proofs.Entry.Addressing
import Formulary.Proofs.Entry.Lookup
import Formulary.Proofs.Eval.Context
import Formulary.Proofs.Machine.RoundTrip

namespace Formulary

/-!
# Machines restored from any bytes

Bytes that are no snapshot are refused.  From all others a machine is restored
whose arrays and tables have the shape that reading an element and looking up a
value rely on, so that no place that is read lies outside of them and no number
on the way to it exceeds a word.  The snapshot of such a machine restores it
again.
-/

/-- Reading the definition goes to elements and points that there are. -/
def Definition.InBounds : Definition → Prop
  | .scalar _ => True
  | .array grid =>
      ∀ indices,
        grid.wordOffset indices = some (grid.offset indices) ∧
        ∀ place, grid.offset indices = .ok place →
          ∃ inside : place < grid.elements.size,
            grid.element indices = .ok grid.elements[place] ∧
            ∀ code, grid.set indices code =
              .ok ⟨grid.dims, grid.elements.set place code inside⟩
  | .function _ _ => True
  | .curve table =>
      ∀ extrapolation x,
        table.valueByPosition extrapolation x =
          some (table.valueAt extrapolation x)

theorem Definition.Valid.inBounds
    {definition : Definition}
    (valid : definition.Valid) :
    definition.InBounds := by
  cases definition with
  | scalar | function => trivial
  | array grid =>
      have full := Grid.Valid.full valid
      exact fun indices =>
        ⟨full.wordOffset_eq indices, fun place found => full.reaches found⟩
  | curve table =>
      intro extrapolation x
      exact Curve.valueByPosition_eq extrapolation
        (Curve.Valid.wellFormed valid).increasing_points

/-- Frames that calls enter, whatever they are called with. -/
def Scopes.OfCalls (scopes : Scopes) : Prop :=
  ∀ frame ∈ scopes.frames, ∃ params arguments,
    frame = Bindings.ofArguments params arguments

/--
Where all global entries are valid, every entry that a name finds is read in
bounds.
-/
theorem inBounds_of_lookup?
    {scopes : Scopes}
    (valid : ∀ entry ∈ scopes.globals.entries, entry.definition.Valid)
    (ofCalls : scopes.OfCalls)
    {config : Config}
    {frame : Option Nat}
    {name : String}
    {entry : Entry}
    (found : Eval.lookup? config scopes frame name = some entry) :
    entry.definition.InBounds := by
  rcases Eval.mem_of_lookup? found with ⟨bindings, isFrame, member⟩ | isGlobal
  · obtain ⟨params, arguments, rfl⟩ := ofCalls bindings isFrame
    obtain ⟨param, cell, -, rfl⟩ := Bindings.mem_ofArguments member
    trivial
  · exact (valid entry isGlobal).inBounds

namespace Machine

/--
A machine with the entries of a snapshot, and what its arrays, tables and names
are like.
-/
structure Restored
    (config : Config)
    (stored : List Entry)
    (machine : Machine) :
    Prop where
  /-- Nothing but entries is restored. -/
  initial : machine = { ofConfig config with scopes := ⟨⟨machine.entries⟩, []⟩ }
  /--
  Names come in the order in which they are first stored, each of them once.
  -/
  names : machine.names = (stored.map Entry.name).eraseDups
  distinct : machine.names.Nodup
  /-- Of several entries with one name the last one counts. -/
  last : ∀ name, machine.find? name = stored.reverse.find? fun entry =>
    entry.name = name
  /--
  An array has one to eight sizes, all positive, whose product counts its
  elements.
  -/
  arrays :
    ∀ name grid, ⟨name, .array grid⟩ ∈ machine.entries →
      (1 ≤ grid.dims.length ∧ grid.dims.length ≤ 8) ∧
      (∀ size ∈ grid.dims, 1 ≤ size) ∧
      grid.dims.prod = grid.elements.size ∧
      grid.dims.prod < 2 ^ 64
  /--
  A table has a point; its points are finite, with abscissas that increase.
  -/
  tables :
    ∀ name table, ⟨name, .curve table⟩ ∈ machine.entries →
      table.points ≠ [] ∧
      (∀ point ∈ table.points, point.x.isFinite ∧ point.y.isFinite) ∧
      table.points.Pairwise fun first second => first.x.lt second.x
  /--
  What a name finds, in any calls and under any policy, is read in bounds.
  -/
  inBounds :
    ∀ scopes : Scopes,
      scopes.globals = machine.scopes.globals → scopes.OfCalls →
      ∀ settings frame name entry,
        Eval.lookup? settings scopes frame name = some entry →
          entry.definition.InBounds
  /-- Its snapshot restores the same entries, whatever follows. -/
  again :
    ∀ other rest,
      restore other (machine.snapshot ++ rest) =
        .ok { ofConfig other with scopes := ⟨⟨machine.entries⟩, []⟩ }

/-- Entries of word size stay so when they are bound one after the other. -/
theorem listFits_ofEntries
    {stored : List Entry}
    (fit : Wire.ListFits Wire.EntryFits stored) :
    Wire.ListFits Wire.EntryFits (Bindings.ofEntries stored).entries := by
  have noMore : (Bindings.ofEntries stored).names.length ≤
      (stored.map Entry.name).length := by
    have distinct := Bindings.nodup_names_ofEntries stored
    refine (List.subperm_of_subset distinct fun name known => ?_).length_le
    rw [Bindings.names_ofEntries] at known
    exact List.mem_eraseDups.mp known
  rw [Bindings.names, List.length_map, List.length_map] at noMore
  exact ⟨Nat.lt_of_le_of_lt noMore fit.1, fun entry member =>
    fit.2 entry (Bindings.mem_ofEntries member)⟩

/-- Entries that were read from bytes make a machine like that. -/
theorem restored_ofEntries
    (config : Config)
    {stored : List Entry}
    (fit : Wire.ListFits Wire.EntryFits stored) :
    Restored config stored
      { ofConfig config with scopes := ⟨Bindings.ofEntries stored, []⟩ } := by
  have distinct := Bindings.nodup_names_ofEntries stored
  have fitBound := listFits_ofEntries fit
  have valid :
      ∀ entry ∈ (Bindings.ofEntries stored).entries, entry.definition.Valid :=
    fun entry member =>
      ((Wire.definitionFits_iff _).mp (fitBound.2 entry member).2).2
  refine
    { initial := rfl
      names := Bindings.names_ofEntries stored
      distinct := distinct
      last := fun name => ?last
      arrays := fun name grid member => ?arrays
      tables := fun name table member => ?tables
      inBounds :=
        fun scopes globals ofCalls settings frame name entry found => ?inBounds
      again := fun other rest => ?again }
  case last =>
    have bound := Bindings.get?_foldl_insert stored Bindings.empty name
    exact bound.trans Option.or_none
  case arrays =>
    have isValid : grid.Valid := valid _ member
    obtain ⟨product, bounded⟩ := Grid.prod_of_checkedCapacity isValid.filled
    exact ⟨isValid.ranked, isValid.positive, product, product ▸ bounded⟩
  case tables =>
    have wellFormed := Curve.Valid.wellFormed (valid _ member)
    exact ⟨wellFormed.nonempty, wellFormed.finite, wellFormed.increasing⟩
  case inBounds =>
    exact inBounds_of_lookup? (by rw [globals]; exact valid) ofCalls found
  case again =>
    have reads := Wire.law_entries.accepts fitBound rest
    have bound := Bindings.ofEntries_of_nodup distinct
    simp only [restore, snapshot, entries, reads, bound]

/--
Whatever the bytes, they are refused, or they begin with entries from which a
machine is restored that no lookup can leave and that its snapshot restores
again.
-/
theorem restored_from_any_bytes
    (config : Config)
    (bytes : List UInt8) :
    (∃ fault, Wire.entries.read bytes = .error fault ∧
      restore config bytes = .error (.snapshot fault)) ∨
    ∃ stored rest machine, Wire.entries.read bytes = .ok (stored, rest) ∧
      restore config bytes = .ok machine ∧
      Restored config stored machine := by
  unfold restore
  cases reads : Wire.entries.read bytes with
  | error fault => exact .inl ⟨fault, rfl, rfl⟩
  | ok result =>
      obtain ⟨stored, rest⟩ := result
      exact .inr ⟨stored, rest, _, rfl, rfl,
        restored_ofEntries config (Wire.yields_entries _ _ _ reads)⟩

-- Two scalars of one name, with another between them; what follows is ignored.
example :
    (restore {} [3, 1, 120, 0, 1, 0, 2, 1, 121, 0, 1, 0, 4, 1, 120, 0, 1, 0, 6,
      255]).map entries =
      .ok [⟨"x", .scalar [.literal (.int 3)]⟩,
        ⟨"y", .scalar [.literal (.int 2)]⟩] := by
  decide +kernel

end Machine

end Formulary
