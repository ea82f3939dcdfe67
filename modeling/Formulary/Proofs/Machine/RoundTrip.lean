import Formulary.Proofs.Load.Restated
import Formulary.Proofs.Machine.Invariant
import Formulary.Proofs.Snapshot.Decoded
import Formulary.Proofs.Snapshot.Truncation

namespace Formulary

/-!
# Snapshots restored

Machines built by loads and from snapshots are consistent: their names are
distinct, and their arrays and tables are valid.  From the snapshot of a
consistent machine, whatever follows it, the same entries are restored in the
same order; when its end is missing it is refused because the bytes end.
-/

/-- Arrays and tables are valid. -/
def Definition.Valid : Definition → Prop
  | .scalar _ => True
  | .array grid => grid.Valid
  | .function _ _ => True
  | .curve table => table.Valid

/-- Texts, lists and numbers are small enough for a machine word. -/
def Definition.WordSized : Definition → Prop
  | .scalar program => Wire.ListFits Wire.CellFits program
  | .array grid =>
      Wire.ListFits (fun size => size < 2 ^ 64) grid.dims ∧
        Wire.ListFits (Wire.ListFits Wire.CellFits) grid.elements.toList
  | .function params body =>
      Wire.ListFits Wire.TextFits params ∧ Wire.ListFits Wire.CellFits body
  | .curve table => table.points.length < 2 ^ 64

/-- What a snapshot can hold is what fits machine words and is valid. -/
theorem Wire.definitionFits_iff (definition : Definition) :
    DefinitionFits definition ↔ definition.WordSized ∧ definition.Valid := by
  cases definition with
  | scalar | function => exact (and_iff_left trivial).symm
  | array | curve => exact Iff.rfl

namespace Machine

/-- Names are distinct, and arrays and tables are valid. -/
structure Consistent (machine : Machine) : Prop where
  distinct : machine.names.Nodup
  valid : ∀ entry ∈ machine.entries, entry.definition.Valid

/-- Everything in the entries is small enough for a machine word. -/
structure WordSized (machine : Machine) : Prop where
  few : machine.entries.length < 2 ^ 64
  names : ∀ entry ∈ machine.entries, Wire.TextFits entry.name
  definitions : ∀ entry ∈ machine.entries, entry.definition.WordSized

/-- Machines built by successful loads and from snapshots. -/
inductive Built : Machine → Prop where
  | start (config : Config) : Built (ofConfig config)
  | load
      {mode : LoadMode}
      {file source : String}
      {machine next : Machine}
      (before : Built machine)
      (succeeds : Machine.load mode file source machine = .ok () next) :
      Built next
  | restore
      {config : Config}
      {bytes : List UInt8}
      {machine : Machine}
      (succeeds : Machine.restore config bytes = .ok machine) :
      Built machine

end Machine

theorem Grid.WellFormed.valid
    {config : Config}
    {grid : Grid}
    (wellFormed : grid.WellFormed config) :
    grid.Valid where
  ranked := wellFormed.ranked
  positive := wellFormed.positive
  filled := by
    rw [wellFormed.filled]
    exact checkedCapacity_of_prod_lt wellFormed.positive wellFormed.bounded

theorem Grid.Valid.set
    {grid changed : Grid}
    (valid : grid.Valid)
    {indices : List Int64}
    {code : Code}
    (succeeds : grid.set indices code = .ok changed) :
    changed.Valid := by
  obtain ⟨offset, -, rfl⟩ := of_set succeeds
  exact
    { ranked := valid.ranked
      positive := valid.positive
      filled := by simpa using valid.filled }

/-- The entry a statement binds is valid, when the entries before it are. -/
theorem Load.Effect.valid
    {signatures : Signatures}
    {config : Config}
    {action : Action}
    {before after : Bindings}
    (effect : Effect signatures config action before after)
    (wellShaped : action.WellShaped)
    (declares :
      ∀ name signature, Compile.declaration? action = some (name, signature) →
        Compile.Declares action name signature)
    (valid : ∀ entry ∈ before.entries, entry.definition.Valid) :
    ∀ entry ∈ after.entries, entry.definition.Valid := by
  cases effect with
  | scalar | function => exact Bindings.forall_mem_insert trivial valid
  | curve read accepted =>
      exact Bindings.forall_mem_insert (Curve.valid_of_ofPoints accepted) valid
  | @array globals name sizes elements dims programs sized fits compiled =>
      have shaped :=
        wellFormed_ofElements wellShaped (declares _ _ rfl).accepted
          sized fits programs
      exact Bindings.forall_mem_insert shaped.valid valid
  | @assign globals name subscripts value grid changed tuple code found
        compiled set =>
      have old : grid.Valid := valid _ (Bindings.mem_of_get? found).1
      exact Bindings.forall_mem_insert (old.set set) valid
  | print => exact valid

theorem Bindings.nodup_names_ofEntries (entries : List Entry) :
    (ofEntries entries).names.Nodup := by
  have grown :
      ∀ (entries : List Entry) (bindings : Bindings), bindings.names.Nodup →
        (entries.foldl insert bindings).names.Nodup := by
    intro entries
    induction entries with
    | nil =>
        intro bindings distinct
        exact distinct
    | cons entry rest inductionHypothesis =>
        intro bindings distinct
        exact inductionHypothesis _ (nodup_names_insert distinct entry)
  exact grown entries empty List.nodup_nil

namespace Machine

theorem consistent_of_restore
    {config : Config}
    {bytes : List UInt8}
    {machine : Machine}
    (succeeds : restore config bytes = .ok machine) :
    machine.Consistent := by
  unfold restore at succeeds
  split at succeeds
  · rename_i entries rest reads
    cases succeeds
    exact
      { distinct := Bindings.nodup_names_ofEntries entries
        valid := fun entry member =>
          ((Wire.definitionFits_iff _).mp
            ((Wire.yields_entries _ _ _ reads).2 entry
              (Bindings.mem_ofEntries member)).2).2 }
  · cases succeeds

theorem Consistent.load
    {mode : LoadMode}
    {file source : String}
    {machine next : Machine}
    (consistent : machine.Consistent)
    (succeeds : load mode file source machine = .ok () next) :
    next.Consistent := by
  obtain ⟨program, signatures, parsed, loadedFrom⟩ :=
    loadedFrom_of_load succeeds
  have staged : (staging mode machine).Consistent := by
    cases mode with
    | replace => exact ⟨List.nodup_nil, fun entry member => by cases member⟩
    | extend => exact ⟨consistent.distinct, consistent.valid⟩
  obtain ⟨accepted, -⟩ := Compile.declareAll_eq_ok_iff.mp loadedFrom.declared
  exact
    { distinct :=
        loadedFrom.effects.preserve (·.names.Nodup)
          (fun _ _ _ _ effect => effect.nodup) staged.distinct
      valid :=
        loadedFrom.effects.preserve (fun bindings => ∀ entry ∈ bindings.entries,
            entry.definition.Valid)
          (fun _ member _ _ effect =>
            effect.valid (wellShaped_of_parse parsed member)
            (accepted _ member))
          staged.valid }

theorem Built.consistent
    {machine : Machine}
    (built : machine.Built) :
    machine.Consistent := by
  induction built with
  | start config => exact ⟨List.nodup_nil, fun entry member => by cases member⟩
  | load before succeeds inductionHypothesis =>
      exact inductionHypothesis.load succeeds
  | restore succeeds => exact consistent_of_restore succeeds

/-- What a consistent machine of word size holds can be written. -/
theorem Consistent.listFits
    {machine : Machine}
    (consistent : machine.Consistent)
    (sized : machine.WordSized) :
    Wire.ListFits Wire.EntryFits machine.entries := by
  refine ⟨sized.few, fun entry member => ⟨sized.names entry member, ?_⟩⟩
  exact (Wire.definitionFits_iff _).mpr
    ⟨sized.definitions entry member, consistent.valid entry member⟩

/--
Machines built by loads and from snapshots are consistent.  Of a consistent
machine, the snapshot restores the same entries in the same order, whatever
bytes follow it; cut short anywhere, it is refused because the bytes end.
-/
theorem snapshot_round_trip :
    (∀ machine : Machine, machine.Built → machine.Consistent) ∧
      ∀ machine : Machine,
        machine.Consistent → machine.WordSized → ∀ config : Config,
        (∀ rest : List UInt8,
          restore config (machine.snapshot ++ rest) =
            .ok { ofConfig config with scopes := ⟨⟨machine.entries⟩, []⟩ }) ∧
        ∀ part : List UInt8,
          part <+: machine.snapshot → part ≠ machine.snapshot →
          restore config part = .error (.snapshot .endOfBytes) := by
  refine ⟨fun machine built => built.consistent, ?_⟩
  intro machine consistent sized config
  have fit := consistent.listFits sized
  have bound : Bindings.ofEntries machine.entries = ⟨machine.entries⟩ :=
    Bindings.ofEntries_of_nodup consistent.distinct
  refine ⟨?_, ?_⟩
  · intro rest
    have reads := Wire.law_entries.accepts fit rest
    simp only [restore, snapshot, reads, bound]
  · rintro part ⟨missing, whole⟩ proper
    have some : missing ≠ [] := by
      rintro rfl
      exact proper (by simpa using whole)
    have ends := Wire.law_entries.endOfBytes_of_append Wire.steady_entries fit
      whole.symm some
    simp only [restore, ends]

/--
A machine with entries of all four kinds, the lowest integer and the longest
call.
-/
def assorted : Machine :=
  { ofConfig {} with
    scopes :=
      ⟨⟨[⟨"größe", .scalar
            [.literal (.int Int64.minValue),
              .literal (.double ⟨0x7ff8000000000001⟩),
              .literal (.string "½"), .literal (.bool true), .lookup "k",
              .call "f" (2 ^ 64 - 1)]⟩,
          ⟨"a", .array ⟨[1, 2], #[[.element "a" 2], [.op (.builtin₁ .sin)]]⟩⟩,
          ⟨"f", .function ["x", "y"]
            [.variable "x", .variable "y", .op (.binary .pow)]⟩,
          ⟨"k", .curve ⟨[⟨⟨0⟩, ⟨1⟩⟩, ⟨⟨1⟩, ⟨0⟩⟩]⟩⟩]⟩, []⟩ }

/-- Such a machine is restored, and from nothing shorter. -/
theorem snapshot_round_trip_assorted :
    assorted.Consistent ∧ assorted.WordSized ∧
      (∀ rest : List UInt8,
        restore {} (assorted.snapshot ++ rest) =
          .ok { ofConfig {} with scopes := ⟨⟨assorted.entries⟩, []⟩ }) ∧
      restore {} assorted.snapshot.dropLast =
        .error (.snapshot .endOfBytes) := by
  have consistent : assorted.Consistent :=
    { distinct := by decide
      valid := by
        simp only [entries, assorted, List.forall_mem_cons, Definition.Valid,
          true_and]
        exact ⟨by decide, by decide, by simp⟩ }
  have sized : assorted.WordSized :=
    { few := by decide
      names := by
        simp only [entries, assorted, List.forall_mem_cons, Wire.TextFits]
        exact ⟨by decide, by decide, by decide, by decide, by simp⟩
      definitions := by
        simp only [entries, assorted, List.forall_mem_cons,
          Definition.WordSized, Wire.ListFits, Wire.CellFits, Wire.TextFits,
          List.not_mem_nil, false_implies, implies_true, true_and, and_true]
        decide }
  -- A snapshot begins with the number of entries.
  have begins : ∃ others, assorted.snapshot = 4 :: others := by
    refine ⟨assorted.entries.flatMap Wire.entry.write, ?_⟩
    change Wire.writeVarint 4 ++ _ = _
    rw [Wire.writeVarint]
    rfl
  obtain ⟨restores, refuses⟩ :=
    snapshot_round_trip.2 assorted consistent sized {}
  refine ⟨consistent, sized, restores, refuses _ (List.dropLast_prefix _) ?_⟩
  obtain ⟨others, begins⟩ := begins
  intro same
  have shorter := congrArg List.length same
  rw [begins, List.length_dropLast, List.length_cons] at shorter
  omega

end Machine

end Formulary
