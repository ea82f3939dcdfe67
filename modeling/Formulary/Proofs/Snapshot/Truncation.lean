import Formulary.Proofs.Snapshot.Entry

namespace Formulary

/-!
# Snapshots cut short

A reader is steady when bytes added at the end change neither what it reads nor
why it refuses, unless it had come to the end of the bytes.  A lawful format
with a steady reader cannot be cut short: every proper front part of what is
written ends too early.
-/

namespace Wire

/--
A reader for which bytes added at the end matter only when the end was reached.
-/
structure Steady (read : ByteReader α) : Prop where
  accepts :
    ∀ {bytes rest : List UInt8} {a : α}, read bytes = .ok (a, rest) →
      ∀ more, read (bytes ++ more) = .ok (a, rest ++ more)
  refuses :
    ∀ {bytes : List UInt8} {fault : SnapshotFault}, read bytes = .error fault →
      fault ≠ .endOfBytes → ∀ more, read (bytes ++ more) = .error fault

/-- What a value is written as cannot be read when its end is missing. -/
theorem Law.endOfBytes_of_append
    {wire : Wire α}
    {fits : α → Prop}
    (law : wire.Law fits)
    (steady : Steady wire.read)
    {a : α}
    (fit : fits a)
    {part missing : List UInt8}
    (written : wire.write a = part ++ missing)
    (some : missing ≠ []) :
    wire.read part = .error .endOfBytes := by
  have whole : wire.read (part ++ missing) = .ok (a, []) := by
    rw [← written]
    simpa using law.accepts fit []
  cases outcome : wire.read part with
  | ok result =>
      obtain ⟨b, rest⟩ := result
      rw [steady.accepts outcome missing] at whole
      have empty : rest ++ missing = [] := (Prod.mk.inj (Except.ok.inj whole)).2
      exact absurd (List.append_eq_nil_iff.mp empty).2 some
  | error fault =>
      by_cases ended : fault = .endOfBytes
      · rw [ended]
      · rw [steady.refuses outcome ended missing] at whole
        cases whole

/-- Read one thing, and then what depends on it. -/
def andThen
    (first : ByteReader α)
    (next : α → ByteReader β) :
    ByteReader β := fun bytes =>
  match first bytes with
  | .error fault => .error fault
  | .ok (a, rest) => next a rest

theorem andThen_of_ok
    {first : ByteReader α}
    {next : α → ByteReader β}
    {bytes rest : List UInt8}
    {a : α}
    (succeeds : first bytes = .ok (a, rest)) :
    andThen first next bytes = next a rest := by
  simp only [andThen, succeeds]

theorem andThen_of_error
    {first : ByteReader α}
    {next : α → ByteReader β}
    {bytes : List UInt8}
    {fault : SnapshotFault}
    (fails : first bytes = .error fault) :
    andThen first next bytes = .error fault := by
  simp only [andThen, fails]

theorem steady_ok (a : α) : Steady fun bytes => .ok (a, bytes) := by
  constructor
  · intro bytes rest b succeeds more
    cases succeeds
    rfl
  · intro bytes fault fails
    cases fails

theorem steady_error
    (fault : SnapshotFault) :
    Steady (α := α) fun _ => .error fault := by
  constructor
  · intro bytes rest a succeeds
    cases succeeds
  · intro bytes other fails _ more
    exact fails

theorem Steady.andThen
    {first : ByteReader α}
    {next : α → ByteReader β}
    (firstSteady : Steady first)
    (nextSteady : ∀ a, Steady (next a)) :
    Steady (andThen first next) := by
  constructor
  · intro bytes rest b succeeds more
    cases outcome : first bytes with
    | error fault =>
        rw [andThen_of_error outcome] at succeeds
        cases succeeds
    | ok result =>
        obtain ⟨a, middle⟩ := result
        rw [andThen_of_ok outcome] at succeeds
        rw [andThen_of_ok (firstSteady.accepts outcome more)]
        exact (nextSteady a).accepts succeeds more
  · intro bytes fault fails notEnded more
    cases outcome : first bytes with
    | error other =>
        rw [andThen_of_error outcome] at fails
        cases fails
        exact andThen_of_error (firstSteady.refuses outcome notEnded more)
    | ok result =>
        obtain ⟨a, middle⟩ := result
        rw [andThen_of_ok outcome] at fails
        rw [andThen_of_ok (firstSteady.accepts outcome more)]
        exact (nextSteady a).refuses fails notEnded more

/-- A reader that first reads one thing and goes on from there. -/
theorem Steady.of_eq_andThen
    {read : ByteReader β}
    {first : ByteReader α}
    {next : α → ByteReader β}
    (firstSteady : Steady first)
    (nextSteady : ∀ a, Steady (next a))
    (same : ∀ bytes, read bytes = Wire.andThen first next bytes) :
    Steady read := by
  rw [funext same]
  exact firstSteady.andThen nextSteady

theorem steady_readVarint
    (lastMost allowed : Nat) :
    Steady (readVarint lastMost allowed) := by
  induction allowed with
  | zero => exact steady_error .longVarint
  | succ allowed inductionHypothesis =>
      -- Behind a byte with its high bit set, the other groups are read.
      have grouped (byte : UInt8) :
          Steady (andThen (readVarint lastMost allowed) fun high rest =>
            .ok (byte.toNat - 128 + 128 * high, rest)) :=
        inductionHypothesis.andThen fun high => steady_ok _
      have longer {byte : UInt8} (continues : ¬ byte.toNat < 128)
          (rest : List UInt8) :
          readVarint lastMost (allowed + 1) (byte :: rest) =
            andThen (readVarint lastMost allowed)
              (fun high rest => .ok (byte.toNat - 128 + 128 * high, rest))
              rest := by
        rw [readVarint, if_neg continues, andThen]
        cases readVarint lastMost allowed rest <;> rfl
      have last {byte : UInt8} (ends : byte.toNat < 128) (rest : List UInt8) :
          readVarint lastMost (allowed + 1) (byte :: rest) =
            if allowed = 0 ∧ lastMost < byte.toNat then .error .longVarint
            else .ok (byte.toNat, rest) := by
        rw [readVarint, if_pos ends]
      constructor
      · intro bytes rest n succeeds more
        cases bytes with
        | nil => cases succeeds
        | cons byte others =>
            by_cases ends : byte.toNat < 128
            · rw [last ends] at succeeds
              rw [List.cons_append, last ends]
              split at succeeds
              · cases succeeds
              · rename_i small
                cases succeeds
                rw [if_neg small]
            · rw [longer ends] at succeeds
              rw [List.cons_append, longer ends]
              exact (grouped byte).accepts succeeds more
      · intro bytes fault fails notEnded more
        cases bytes with
        | nil =>
            cases fails
            exact absurd rfl notEnded
        | cons byte others =>
            by_cases ends : byte.toNat < 128
            · rw [last ends] at fails
              rw [List.cons_append, last ends]
              split at fails
              · rename_i large
                rw [if_pos large]
                exact fails
              · cases fails
            · rw [longer ends] at fails
              rw [List.cons_append, longer ends]
              exact (grouped byte).refuses fails notEnded more

theorem steady_nat : Steady nat.read :=
  steady_readVarint 1 10

theorem steady_tag : Steady tag.read :=
  steady_readVarint 15 5

theorem steady_readBytes (count : Nat) : Steady (readBytes count) := by
  constructor
  · intro bytes rest taken succeeds more
    unfold readBytes at succeeds
    split at succeeds
    · cases succeeds
    · rename_i enough
      cases succeeds
      have within : count ≤ bytes.length := Nat.le_of_not_lt enough
      rw [readBytes, if_neg (by rw [List.length_append]; omega),
        List.take_append_of_le_length within,
        List.drop_append_of_le_length within]
  · intro bytes fault fails notEnded
    unfold readBytes at fails
    split at fails
    · cases fails
      exact absurd rfl notEnded
    · cases fails

theorem steady_int : Steady int.read := by
  refine steady_nat.of_eq_andThen
    (fun n => steady_ok (Int64.ofInt (unzigzag n))) fun bytes => ?_
  simp only [int, andThen]
  cases nat.read bytes <;> rfl

theorem steady_double : Steady double.read := by
  refine (steady_readBytes 8).of_eq_andThen
    (fun word => steady_ok (⟨UInt64.ofNat (bytesWord word)⟩ : Double))
    fun bytes => ?_
  simp only [double, andThen]
  cases readBytes 8 bytes <;> rfl

theorem steady_bool : Steady bool.read := by
  constructor
  · intro bytes rest truth succeeds more
    cases bytes with
    | nil => cases succeeds
    | cons byte others =>
        simp only [bool, List.cons_append] at succeeds ⊢
        split at succeeds
        · rename_i zero
          cases succeeds
          rw [if_pos zero]
        · rename_i notZero
          split at succeeds
          · rename_i one
            cases succeeds
            rw [if_neg notZero, if_pos one]
          · cases succeeds
  · intro bytes fault fails notEnded more
    cases bytes with
    | nil =>
        cases fails
        exact absurd rfl notEnded
    | cons byte others =>
        simp only [bool, List.cons_append] at fails ⊢
        split at fails
        · cases fails
        · rename_i notZero
          split at fails
          · cases fails
          · rename_i notOne
            rw [if_neg notZero, if_neg notOne]
            exact fails

/-- The bytes of a text are those of its characters, or they are refused. -/
theorem steady_text (encoded : List UInt8) :
    Steady fun rest =>
      match String.fromUTF8? ⟨encoded.toArray⟩ with
      | some text => .ok (text, rest)
      | none => .error .badText := by
  cases String.fromUTF8? ⟨encoded.toArray⟩ with
  | some text => exact steady_ok text
  | none => exact steady_error .badText

theorem steady_string : Steady string.read := by
  refine steady_nat.of_eq_andThen
    (fun count => (steady_readBytes count).andThen steady_text) fun bytes => ?_
  simp only [string, andThen]
  cases nat.read bytes with
  | error fault => rfl
  | ok result =>
      obtain ⟨count, rest⟩ := result
      dsimp only
      cases readBytes count rest <;> rfl

section Combinations

variable
  {first : Wire α}
  {second : Wire β}

theorem steady_pair
    (firstSteady : Steady first.read)
    (secondSteady : Steady second.read) :
    Steady (pair first second).read :=
  firstSteady.andThen fun a => secondSteady.andThen fun b => steady_ok (a, b)

theorem steady_readItems
    (steady : Steady first.read)
    (count : Nat) :
    Steady (readItems first count) := by
  induction count with
  | zero => exact steady_ok []
  | succ count inductionHypothesis =>
      refine steady.of_eq_andThen
        (fun a => inductionHypothesis.andThen fun others =>
          steady_ok (a :: others))
        fun bytes => ?_
      simp only [readItems, andThen]
      cases first.read bytes with
      | error fault => rfl
      | ok result =>
          obtain ⟨a, rest⟩ := result
          dsimp only
          cases readItems first count rest <;> rfl

theorem steady_list
    (steady : Steady first.read) :
    Steady (list first).read := by
  refine steady_nat.of_eq_andThen (steady_readItems steady) fun bytes => ?_
  simp only [list, andThen]
  cases nat.read bytes <;> rfl

theorem steady_via
    (steady : Steady first.read)
    (encode : β → α)
    (decode : α → Option β) :
    Steady (via first encode decode).read := by
  refine steady.andThen fun a => ?_
  cases decode a with
  | some b => exact steady_ok b
  | none => exact steady_error .refused

theorem steady_alternative
    (steady : Steady first.read)
    (build : α → β) :
    Steady (alternative first build) := by
  refine steady.of_eq_andThen (fun a => steady_ok (build a)) fun bytes => ?_
  simp only [alternative, andThen]
  cases first.read bytes <;> rfl

theorem steady_chosen
    {chosen : Option (ByteReader α)}
    (steady : ∀ reader ∈ chosen, Steady reader) :
    Steady fun rest =>
      match chosen with
      | some reader => reader rest
      | none => .error .refused := by
  cases chosen with
  | some reader => exact steady reader rfl
  | none => exact steady_error .refused

theorem steady_readTagged
    {alternatives : Nat → Option (ByteReader α)}
    (steady : ∀ number, ∀ reader ∈ alternatives number, Steady reader) :
    Steady (readTagged alternatives) := by
  refine steady_tag.of_eq_andThen (fun number => steady_chosen (steady number))
    fun bytes => ?_
  simp only [readTagged, andThen]
  cases tag.read bytes <;> rfl

end Combinations

theorem steady_builtin : Steady builtin.read :=
  steady_via steady_tag _ _

theorem steady_op : Steady op.read := by
  refine steady_readTagged fun number reader known => ?_
  split at known
  · cases known
    exact steady_alternative steady_builtin _
  · cases known
    exact steady_alternative steady_builtin _
  · obtain ⟨operation, -, rfl⟩ := Option.map_eq_some_iff.mp known
    exact steady_ok operation

theorem steady_counted : Steady counted.read :=
  steady_pair steady_string steady_nat

theorem steady_cell : Steady cell.read := by
  refine steady_readTagged fun number reader known => ?_
  split at known
  · cases known
    exact steady_alternative steady_int _
  · cases known
    exact steady_alternative steady_double _
  · cases known
    exact steady_alternative steady_string _
  · cases known
    exact steady_alternative steady_bool _
  · cases known
    exact steady_alternative steady_string _
  · cases known
    exact steady_alternative steady_string _
  · cases known
    exact steady_alternative steady_counted _
  · cases known
    exact steady_alternative steady_counted _
  · cases known
    exact steady_alternative steady_op _
  · cases known

theorem steady_code : Steady code.read :=
  steady_list steady_cell

theorem steady_grid : Steady grid.read :=
  steady_via
    (steady_pair (steady_list steady_nat) (steady_list steady_code)) _ _

theorem steady_curve : Steady curve.read :=
  steady_via
    (steady_list (steady_via (steady_pair steady_double steady_double) _ _)) _ _

theorem steady_function : Steady function.read :=
  steady_pair (steady_list steady_string) steady_code

theorem steady_definition : Steady definition.read := by
  refine steady_readTagged fun number reader known => ?_
  split at known
  · cases known
    exact steady_alternative steady_code _
  · cases known
    exact steady_alternative steady_grid _
  · cases known
    exact steady_alternative steady_function _
  · cases known
    exact steady_alternative steady_curve _
  · cases known

theorem steady_entries : Steady entries.read :=
  steady_list (steady_via (steady_pair steady_string steady_definition) _ _)

end Wire

end Formulary
