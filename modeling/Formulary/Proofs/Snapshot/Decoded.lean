import Formulary.Proofs.Snapshot.Entry

namespace Formulary

/-!
# What bytes are read as

Whatever bytes are read, and however many groups their numbers are written in,
what they are read as fits: numbers and lengths are machine words, and arrays
and tables are valid.  So the format can write again whatever it reads.
-/

/-- Points that are not refused make a valid table. -/
theorem Curve.valid_of_ofPoints
    {points : List Point}
    {curve : Curve}
    (accepted : ofPoints points = .ok curve) :
    curve.Valid := by
  unfold ofPoints at accepted
  split at accepted
  · cases accepted
  · rename_i faultless
    cases accepted
    exact faultless

namespace Wire

/-- What holds of every value that a reader gives. -/
def Yields (read : ByteReader α) (holds : α → Prop) : Prop :=
  ∀ (bytes rest : List UInt8) (a : α), read bytes = .ok (a, rest) → holds a

theorem yields_any (read : ByteReader α) : Yields read (fun _ => True) :=
  fun _ _ _ _ => trivial

/-- A number of so many groups is no larger than they can say. -/
theorem yields_readVarint
    (lastMost allowed : Nat) :
    Yields (readVarint lastMost (allowed + 1))
      (· < 128 ^ allowed * (lastMost + 1)) := by
  induction allowed with
  | zero =>
      intro bytes rest n succeeds
      cases bytes with
      | nil => cases succeeds
      | cons byte others =>
          rw [readVarint] at succeeds
          split at succeeds
          · split at succeeds
            · cases succeeds
            · cases succeeds
              omega
          · cases succeeds
  | succ allowed inductionHypothesis =>
      intro bytes rest n succeeds
      have wide : 128 ≤ 128 ^ (allowed + 1) * (lastMost + 1) := by
        calc 128 = 128 ^ 1 := rfl
          _ ≤ 128 ^ (allowed + 1) :=
            Nat.pow_le_pow_right (by decide) (Nat.le_add_left 1 allowed)
          _ ≤ 128 ^ (allowed + 1) * (lastMost + 1) :=
            Nat.le_mul_of_pos_right _ (Nat.succ_pos _)
      cases bytes with
      | nil => cases succeeds
      | cons byte others =>
          rw [readVarint] at succeeds
          split at succeeds
          · rename_i ends
            split at succeeds
            · cases succeeds
            · cases succeeds
              exact Nat.lt_of_lt_of_le ends wide
          · split at succeeds
            · rename_i high last reads
              cases succeeds
              have group : byte.toNat < 256 := byte.toNat_lt
              have below : high < 128 ^ allowed * (lastMost + 1) :=
                inductionHypothesis _ _ _ reads
              have more := Nat.mul_le_mul_left 128 (Nat.succ_le_of_lt below)
              rw [Nat.pow_succ, Nat.mul_right_comm, Nat.mul_comm _ 128]
              omega
            · cases succeeds

/-- Numbers are machine words. -/
theorem yields_nat : Yields nat.read (· < 2 ^ 64) :=
  yields_readVarint 1 9

theorem yields_readBytes
    (count : Nat) :
    Yields (readBytes count) (·.length = count) := by
  intro bytes rest taken succeeds
  rw [readBytes] at succeeds
  split at succeeds
  · cases succeeds
  · rename_i enough
    cases succeeds
    rw [List.length_take]
    exact Nat.min_eq_left (Nat.not_lt.mp enough)

/-- The length of a text is a machine word. -/
theorem yields_string : Yields string.read TextFits := by
  intro bytes rest text succeeds
  simp only [string] at succeeds
  split at succeeds
  · cases succeeds
  · rename_i count middle counted
    split at succeeds
    · cases succeeds
    · rename_i encoded last taken
      split at succeeds
      · rename_i decoded isText
        cases succeeds
        have length := yields_readBytes count middle _ encoded taken
        have size : text.utf8ByteSize = encoded.length := by
          unfold String.fromUTF8? at isText
          split at isText
          · cases isText
            rfl
          · cases isText
        rw [TextFits, size, length]
        exact yields_nat bytes middle count counted
      · cases succeeds

section Combinations

variable
  {first : Wire α}
  {second : Wire β}
  {firstHolds : α → Prop}
  {secondHolds : β → Prop}

theorem yields_pair
    (firstYields : Yields first.read firstHolds)
    (secondYields : Yields second.read secondHolds) :
    Yields (pair first second).read
      (fun value => firstHolds value.1 ∧ secondHolds value.2) := by
  intro bytes rest value succeeds
  simp only [pair] at succeeds
  split at succeeds
  · cases succeeds
  · rename_i a middle readsFirst
    split at succeeds
    · cases succeeds
    · rename_i b last readsSecond
      cases succeeds
      exact ⟨firstYields _ _ _ readsFirst, secondYields _ _ _ readsSecond⟩

theorem yields_readItems
    (each : Yields first.read firstHolds)
    (count : Nat) :
    Yields (readItems first count)
      (fun items =>
        items.length = count ∧ ∀ item ∈ items, firstHolds item) := by
  induction count with
  | zero =>
      intro bytes rest items succeeds
      cases succeeds
      exact ⟨rfl, by simp⟩
  | succ count inductionHypothesis =>
      intro bytes rest items succeeds
      rw [readItems] at succeeds
      split at succeeds
      · cases succeeds
      · rename_i item middle readsFirst
        split at succeeds
        · cases succeeds
        · rename_i others last readsOthers
          cases succeeds
          obtain ⟨counted, hold⟩ := inductionHypothesis _ _ _ readsOthers
          exact ⟨congrArg (· + 1) counted,
            List.forall_mem_cons.mpr ⟨each _ _ _ readsFirst, hold⟩⟩

theorem yields_list
    (each : Yields first.read firstHolds) :
    Yields (list first).read (ListFits firstHolds) := by
  intro bytes rest items succeeds
  simp only [list] at succeeds
  split at succeeds
  · cases succeeds
  · rename_i count middle counted
    obtain ⟨length, hold⟩ := yields_readItems each count _ _ _ succeeds
    exact ⟨length ▸ yields_nat bytes middle count counted, hold⟩

theorem yields_via
    {encode : β → α}
    {decode : α → Option β}
    (inside : Yields first.read firstHolds)
    (decoded : ∀ a b, firstHolds a → decode a = some b → secondHolds b) :
    Yields (via first encode decode).read secondHolds := by
  intro bytes rest b succeeds
  simp only [via] at succeeds
  split at succeeds
  · cases succeeds
  · rename_i a middle reads
    split at succeeds
    · rename_i result isDecoded
      cases succeeds
      exact decoded a b (inside _ _ _ reads) isDecoded
    · cases succeeds

theorem yields_alternative
    {build : α → β}
    (built : Yields first.read (fun a => secondHolds (build a))) :
    Yields (alternative first build) secondHolds := by
  intro bytes rest b succeeds
  simp only [alternative] at succeeds
  split at succeeds
  · rename_i a middle reads
    cases succeeds
    exact built _ _ _ reads
  · cases succeeds

theorem yields_readTagged
    {alternatives : Nat → Option (ByteReader α)}
    (each : ∀ number, ∀ reader ∈ alternatives number,
      Yields reader firstHolds) :
    Yields (readTagged alternatives) firstHolds := by
  intro bytes rest a succeeds
  simp only [readTagged] at succeeds
  split at succeeds
  · cases succeeds
  · split at succeeds
    · rename_i reader known
      exact each _ reader known _ _ _ succeeds
    · cases succeeds

end Combinations

theorem yields_counted :
    Yields counted.read (fun pair => TextFits pair.1 ∧ pair.2 < 2 ^ 64) :=
  yields_pair yields_string yields_nat

theorem yields_cell : Yields cell.read CellFits := by
  refine yields_readTagged fun number reader known => ?_
  split at known <;> cases known
  · exact yields_alternative (yields_any int.read)
  · exact yields_alternative (yields_any double.read)
  · exact yields_alternative yields_string
  · exact yields_alternative (yields_any bool.read)
  · exact yields_alternative yields_string
  · exact yields_alternative yields_string
  · exact yields_alternative yields_counted
  · exact yields_alternative yields_counted
  · exact yields_alternative (yields_any op.read)

theorem yields_code : Yields code.read (ListFits CellFits) :=
  yields_list yields_cell

/-- Sizes and elements that do not fit each other are refused. -/
theorem yields_grid :
    Yields grid.read (fun array => DefinitionFits (.array array)) := by
  refine yields_via
    (yields_pair (yields_list yields_nat) (yields_list yields_code)) ?_
  rintro ⟨dims, elements⟩ array ⟨dimsFit, elementsFit⟩ decoded
  obtain ⟨valid, same⟩ := Option.ite_none_right_eq_some.mp decoded
  cases same
  exact ⟨⟨dimsFit, elementsFit⟩, valid⟩

/-- Points that do not make a table are refused. -/
theorem yields_curve :
    Yields curve.read (fun table => DefinitionFits (.curve table)) := by
  refine yields_via (yields_list (yields_any point.read)) ?_
  intro points table pointsFit decoded
  cases outcome : Curve.ofPoints points with
  | ok curve =>
      rw [outcome] at decoded
      cases decoded
      have valid := Curve.valid_of_ofPoints outcome
      unfold Curve.ofPoints at outcome
      split at outcome
      · cases outcome
      · cases outcome
        exact ⟨pointsFit.1, valid⟩
  | error fault =>
      rw [outcome] at decoded
      cases decoded

theorem yields_definition : Yields definition.read DefinitionFits := by
  refine yields_readTagged fun number reader known => ?_
  split at known <;> cases known
  · exact yields_alternative yields_code
  · exact yields_alternative yields_grid
  · exact yields_alternative
      (yields_pair (yields_list yields_string) yields_code)
  · exact yields_alternative yields_curve

theorem yields_entry : Yields entry.read EntryFits := by
  refine yields_via (yields_pair yields_string yields_definition) ?_
  rintro ⟨name, meaning⟩ item fit decoded
  cases decoded
  exact fit

/-- The entries that are read from any bytes fit. -/
theorem yields_entries : Yields entries.read (ListFits EntryFits) :=
  yields_list yields_entry

end Wire

end Formulary
