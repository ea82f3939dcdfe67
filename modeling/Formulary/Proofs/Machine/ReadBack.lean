import Formulary.Machine.Report
import Formulary.Proofs.Load.Sourced
import Formulary.Proofs.Machine.Invariant

namespace Formulary

open Grammar Stateful

/-!
# The source of a machine reads back

The entries of a loaded machine are written as declarations, in order.  Loading
these gives the same names in the same order, bound to the same entries, except
that a zero negated by an operation of its own is read back as a zero.
-/

namespace Machine

/-- A text that reads as a phrase is scanned as the tokens of one. -/
theorem scan_of_readsAs
    {phrase : Tokens → α → Prop}
    {source : String}
    {holds : α → Prop}
    (reads : ReadsAs phrase source.toList holds) :
    ∃ located ending a,
      Token.scan source = .ok (located ++ [⟨ending, .eof⟩]) ∧
        (∀ token ∈ located ++ [⟨ending, .eof⟩], token.item.isComment = false) ∧
          phrase located a ∧ holds a := by
  obtain ⟨tokens, spells, derives⟩ := reads
  have endsHere : Token.Delimited [] := by
    intro c isFirst
    cases isFirst
  obtain ⟨next, located, items, scanned⟩ :=
    spells.scanned Position.start [] endsHere
  obtain ⟨a, isPhrase, has⟩ := derives located items
  refine ⟨located, next, a, ?_, ?_, isPhrase, has⟩
  · rw [List.append_nil] at scanned
    rw [Token.scan, scanned, Token.scanFrom]
    rfl
  · refine List.forall_mem_append.mpr ⟨?_, by simp [Token.isComment]⟩
    intro token member
    exact spells.visible token.item (items ▸ List.mem_map_of_mem member)

/-- A text that reads as declarations is parsed as a program of them. -/
theorem parse_of_readsAs
    {source : String}
    {holds : List Action → Prop}
    (reads : ReadsAs Entry.Declarations source.toList holds)
    (file : String) :
    ∃ program, parse file source = .ok program ∧
      holds (program.map Statement.action) := by
  obtain ⟨located, ending, actions, scanned, visible, allRead, has⟩ :=
    scan_of_readsAs reads
  obtain ⟨program, parsed, rfl⟩ := (allRead ending).program visible
  refine ⟨program, ?_, has⟩
  rw [parse, scanned]
  simp only [Except.mapError, except_bind_ok, parsed]

/-- What is known about a machine that has been loaded on its own. -/
structure LoadedAlone (config : Config) (machine : Machine) : Prop where
  wellFormed : machine.WellFormed
  config : machine.config = config
  sourced :
    ∀ entry ∈ machine.entries,
      entry.Sourced (Signatures.ofEntries machine.entries)

theorem loadedAlone_of_load
    {config : Config}
    {file source : String}
    {machine : Machine}
    (short : source.length < 2 ^ 63)
    (succeeds : load .replace file source (ofConfig config) = .ok () machine) :
    LoadedAlone config machine := by
  have wellFormed := (wellFormed_ofConfig config).load succeeds
  obtain ⟨program, signatures, parsed, loadedFrom⟩ :=
    loadedFrom_of_load succeeds
  have describe : signatures.Describe machine.scopes.globals :=
    loadedFrom.effects.describe loadedFrom.declared (.ofEntries List.nodup_nil)
  have same (name : String) :
      signatures.get? name =
        (Signatures.ofEntries machine.entries).get? name := by
    rw [describe name]
    exact (Signatures.Describe.ofEntries wellFormed.distinct name).symm
  have sourced : ∀ entry ∈ machine.entries, entry.Sourced signatures := by
    refine loadedFrom.effects.preserve
      (fun bindings => ∀ entry ∈ bindings.entries, entry.Sourced signatures) ?_
      ?_
    · intro statement member before after effect
      refine effect.sourced (wellShaped_of_parse parsed member) ?_ ?_
      · intro tree stored
        exact (written_of_parse parsed member stored).lexical
      · intro name sizes elements isArray
        exact Nat.lt_trans
          (length_elements_lt_of_parse parsed member isArray) short
    · intro entry member
      cases member
  exact ⟨wellFormed, loadedFrom.config, fun entry member =>
    (sourced entry member).congr same⟩

/-- Every array has at least one index. -/
theorem ranked_ofEntries
    {machine : Machine}
    (wellFormed : machine.WellFormed)
    (name : String) :
    (Signatures.ofEntries machine.entries).get? name ≠ some (.array 0) := by
  intro found
  have described := Signatures.Describe.ofEntries wellFormed.distinct name
  obtain ⟨entry, bound, signed⟩ :=
    Option.map_eq_some_iff.mp (described.symm.trans found)
  have shaped :=
    (wellFormed.entries entry (Bindings.mem_of_get? bound).1).shaped
  obtain ⟨ownName, definition⟩ := entry
  cases definition with
  | scalar | function | curve => cases signed
  | array grid =>
      have grids : grid.WellFormed machine.config := shaped
      have noIndex : grid.dims.length = 0 := by
        simpa [Entry.signature, Grid.rank] using signed
      have someIndex := grids.ranked.1
      omega

/-- Signatures do not change when entries are read back. -/
theorem ofEntries_reread (entries : List Entry) :
    Signatures.ofEntries (entries.map Entry.reread) =
      Signatures.ofEntries entries := by
  rw [Signatures.ofEntries, List.foldl_map]
  simp only [Entry.name_reread, Entry.signature_reread]
  rfl

/-- A source of declarations that restate some entries loads these entries. -/
theorem load_of_restates
    {config : Config}
    (allowed : config.AllowsStep)
    {file source : String}
    {program : List Statement}
    (parsed : parse file source = .ok program)
    {entries : List Entry}
    (restate :
      List.Forall₂ (Restates (Signatures.ofEntries entries)) entries
        (program.map Statement.action))
    (distinct : (entries.map Entry.name).Nodup)
    (notBuiltin : ∀ entry ∈ entries, Builtin.ofName? entry.name = none)
    (shaped : ∀ entry ∈ entries, entry.definition.WellFormed config)
    (small :
      ∀ entry ∈ entries, ∀ grid, entry.definition = .array grid →
        ∀ size ∈ grid.dims, size < 2 ^ 63) :
    load .replace file source (ofConfig config) =
      .ok () { ofConfig config with scopes := ⟨⟨entries⟩, []⟩ } := by
  have declares :
      (Load.ofExcept (Compile.declareAll Signatures.empty program) :
        Load.Build Signatures)
          (ofConfig config) =
        .ok (Signatures.ofEntries entries) (ofConfig config) := by
    rw [Compile.declareAll_of_restates restate notBuiltin shaped]
    rfl
  have idle : (ofConfig config).Idle := ⟨allowed, rfl, rfl⟩
  have inOrder : entries.foldl Bindings.insert Bindings.empty = ⟨entries⟩ :=
    @Bindings.ofEntries_of_nodup ⟨entries⟩ distinct
  have built :
      Load.program program (staging .replace (ofConfig config)) =
        .ok () { ofConfig config with
          scopes := ⟨entries.foldl Bindings.insert Bindings.empty, []⟩ } :=
    (bind_of_ok declares).trans
      (Load.statements_of_restates idle restate shaped small)
  rw [inOrder] at built
  simp only [load, parsed, built]
  rfl

/-- The source of a machine that has been loaded on its own can be loaded. -/
theorem LoadedAlone.load_source
    {config : Config}
    {machine : Machine}
    (loaded : LoadedAlone config machine)
    (allowed : config.AllowsStep)
    (file : String) :
    ∃ again,
      load .replace file machine.source (ofConfig config) = .ok () again ∧
      again.entries = machine.entries.map Entry.reread := by
  have wellFormed := loaded.wellFormed
  have entriesWellFormed (entry : Entry) (member : entry ∈ machine.entries) :
      entry.WellFormed config (· ∈ machine.names) :=
    loaded.config ▸ wellFormed.entries entry member
  have reads :
      ReadsAs Entry.Declarations machine.source.toList
        (List.Forall₂ (Restates (Signatures.ofEntries machine.entries))
          (machine.entries.map Entry.reread)) :=
    Entry.readsAs_lines (ranked_ofEntries wellFormed) fun entry member =>
      (loaded.sourced entry member).declarable (entriesWellFormed entry member)
  obtain ⟨program, parsed, restate⟩ := parse_of_readsAs reads file
  rw [← ofEntries_reread] at restate
  refine ⟨_, load_of_restates allowed parsed restate ?distinct ?notBuiltin
    ?shaped ?small, rfl⟩
  case distinct =>
    rw [List.map_map]
    exact wellFormed.distinct
  case notBuiltin =>
    rw [List.forall_mem_map]
    intro entry member
    exact (entriesWellFormed entry member).notBuiltin
  case shaped =>
    rw [List.forall_mem_map]
    intro entry member
    exact (entriesWellFormed entry member).shaped.reread
  case small =>
    rw [List.forall_mem_map]
    intro entry member
    exact (loaded.sourced entry member).small_reread

/--
The source of a loaded machine can be loaded under the same settings, and gives
the same names in the same order.  The entries are the same, bit for bit,
exactly when no program of them negates the integer zero by an operation of its
own; such a negation, and nothing else, is lost.

Texts are assumed to fit into the memory of a machine with signed 64-bit
offsets.
-/
theorem source_reads_back
    {config : Config}
    (depthAllowed : 1 ≤ config.maxCallDepth)
    (stepsAllowed : ∀ most ∈ config.maxSteps, 1 ≤ most)
    {file source : String}
    (short : source.length < 2 ^ 63)
    {machine : Machine}
    (loaded : load .replace file source (ofConfig config) = .ok () machine)
    (label : String) :
    ∃ again,
      load .replace label machine.source (ofConfig config) = .ok () again ∧
      again.names = machine.names ∧
      again.entries = machine.entries.map Entry.reread ∧
      (again.entries = machine.entries ↔
        ∀ entry ∈ machine.entries, ∀ code ∈ entry.programs,
          ¬ [.literal (.int 0), .op .negate] <:+: code) := by
  have alone := loadedAlone_of_load short loaded
  obtain ⟨again, loadsAgain, sameEntries⟩ :=
    alone.load_source ⟨depthAllowed, stepsAllowed⟩ label
  refine ⟨again, loadsAgain, ?_, sameEntries, ?_⟩
  · have sameNames :
        again.entries.map Entry.name = machine.entries.map Entry.name := by
      rw [sameEntries, List.map_map]
      rfl
    exact sameNames
  · rw [sameEntries, map_eq_self_iff]
    refine forall₂_congr fun entry member => ?_
    rw [entry.reread_eq_self_iff]
    exact forall₂_congr fun code isProgram => code.reread_eq_self_iff

/-- A function, a scalar that calls it and an array read back as they are. -/
theorem source_reads_back_function :
    ∃ machine again : Machine,
      load .replace "" "f(x) = (x - 1) ^ 2; y = -f(-3); a[2] = [y];"
        (ofConfig {}) =
          .ok () machine ∧
        load .replace "" machine.source (ofConfig {}) = .ok () again ∧
          again.entries = machine.entries := by
  have loads : ∃ machine : Machine,
      load .replace "" "f(x) = (x - 1) ^ 2; y = -f(-3); a[2] = [y];"
        (ofConfig {}) =
          .ok () machine ∧
        machine.entries =
          [⟨"f", .function ["x"]
              [.variable "x", .literal (.int 1), .op (.binary .sub),
                .op .square]⟩,
            ⟨"y", .scalar [.literal (.int (-3)), .call "f" 1, .op .negate]⟩,
            ⟨"a", .array ⟨[2], #[[.variable "y"], [.literal (.int 0)]]⟩⟩] := by
    refine ⟨{ ofConfig {} with scopes := ⟨⟨_⟩, []⟩ }, ?_, rfl⟩
    decide +kernel
  obtain ⟨machine, loaded, entries⟩ := loads
  have small :
      "f(x) = (x - 1) ^ 2; y = -f(-3); a[2] = [y];".length < 2 ^ 63 := by decide
  obtain ⟨again, loadsAgain, -, -, same⟩ :=
    source_reads_back (by decide) (by simp) small loaded ""
  refine ⟨machine, again, loaded, loadsAgain, same.mpr ?_⟩
  rw [entries]
  decide

/--
A zero negated twice is written as a negated zero, which reads back as a zero.
-/
theorem double_negation_lost :
    ∃ machine again : Machine,
      load .replace "" "x = --0;" (ofConfig {}) = .ok () machine ∧
        machine.source = "x = -0;\n" ∧
          load .replace "" machine.source (ofConfig {}) = .ok () again ∧
            again.entries ≠ machine.entries := by
  refine ⟨{ ofConfig {} with scopes :=
    ⟨⟨[⟨"x", .scalar [.literal (.int 0), .op .negate]⟩]⟩, []⟩ },
    { ofConfig {} with scopes := ⟨⟨[⟨"x", .scalar [.literal (.int 0)]⟩]⟩, []⟩ },
    ?_, ?_, ?_, ?_⟩
  · decide +kernel
  · decide +kernel
  · decide +kernel
  · decide

end Machine

end Formulary
