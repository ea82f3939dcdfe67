import Formulary.Snapshot.Wire
import Mathlib.Algebra.Group.Nat.Defs

namespace Formulary

/-!
# Reading what was written

A format is lawful when a value that fits it is read back in front of any
bytes, and one that does not fit is refused.  Each way of putting formats
together keeps them lawful.
-/

namespace Wire

/-- A format that reads back exactly the values that fit it. -/
structure Law (wire : Wire α) (fits : α → Prop) : Prop where
  accepts :
    ∀ {a : α}, fits a → ∀ rest, wire.read (wire.write a ++ rest) = .ok (a, rest)
  refuses :
    ∀ {a : α}, ¬ fits a → ∀ rest, ∃ fault,
      wire.read (wire.write a ++ rest) = .error fault

/-- Whatever is read in the place of a value is that value. -/
theorem Law.eq_of_read
    {wire : Wire α}
    {fits : α → Prop}
    (law : wire.Law fits)
    {a b : α}
    {rest left : List UInt8}
    (succeeds : wire.read (wire.write a ++ rest) = .ok (b, left)) :
    b = a ∧ left = rest := by
  by_cases fit : fits a
  · rw [law.accepts fit rest] at succeeds
    cases succeeds
    exact ⟨rfl, rfl⟩
  · obtain ⟨fault, fails⟩ := law.refuses fit rest
    rw [fails] at succeeds
    cases succeeds

theorem toNat_ofNat
    {n : Nat}
    (small : n < 256) :
    (UInt8.ofNat n).toNat = n := by
  simpa using Nat.mod_eq_of_lt small

/--
A number is read back when it has few enough groups, and refused otherwise.
-/
theorem readVarint_writeVarint
    {lastMost : Nat}
    (small : lastMost < 128)
    (allowed n : Nat)
    (rest : List UInt8) :
    readVarint lastMost (allowed + 1) (writeVarint n ++ rest) =
      if n < 128 ^ allowed * (lastMost + 1) then .ok (n, rest)
      else .error .longVarint := by
  induction allowed generalizing n with
  | zero =>
      rw [writeVarint]
      by_cases short : n < 128
      · have byte := toNat_ofNat (show n < 256 by omega)
        simp only [short, if_true, List.cons_append, List.nil_append,
          readVarint, byte]
        by_cases fit : n < 128 ^ 0 * (lastMost + 1)
        · rw [if_pos fit, if_neg (by omega)]
        · rw [if_neg fit, if_pos ⟨trivial, by omega⟩]
      · have byte := toNat_ofNat (show n % 128 + 128 < 256 by omega)
        simp only [short, if_false, List.cons_append, readVarint, byte]
        rw [if_neg (by omega), if_neg (by omega)]
  | succ allowed inductionHypothesis =>
      rw [writeVarint]
      by_cases short : n < 128
      · have byte := toNat_ofNat (show n < 256 by omega)
        have fit : n < 128 ^ (allowed + 1) * (lastMost + 1) := by
          have positive : 1 ≤ 128 ^ allowed := Nat.one_le_pow _ _ (by decide)
          calc n < 128 := short
            _ ≤ 128 ^ allowed * 128 := by omega
            _ = 128 ^ (allowed + 1) := (Nat.pow_succ _ _).symm
            _ ≤ 128 ^ (allowed + 1) * (lastMost + 1) :=
              Nat.le_mul_of_pos_right _ (by omega)
        simp [short, readVarint, byte, fit]
      · have byte := toNat_ofNat (show n % 128 + 128 < 256 by omega)
        simp only [short, if_false, List.cons_append, readVarint, byte,
          inductionHypothesis]
        have same :
            n / 128 < 128 ^ allowed * (lastMost + 1) ↔
              n < 128 ^ (allowed + 1) * (lastMost + 1) := by
          rw [Nat.div_lt_iff_lt_mul (by decide), Nat.pow_succ,
            Nat.mul_right_comm]
        by_cases fit : n < 128 ^ (allowed + 1) * (lastMost + 1)
        · rw [if_neg (by omega), if_pos (same.mpr fit), if_pos fit]
          simp only [Except.ok.injEq, Prod.mk.injEq, and_true]
          omega
        · rw [if_neg (by omega), if_neg (fun other => fit (same.mp other)),
            if_neg fit]

theorem law_nat : nat.Law (fun n => n < 2 ^ 64) := by
  have read (n : Nat) (rest : List UInt8) :=
    readVarint_writeVarint (show 1 < 128 by decide) 9 n rest
  constructor
  · intro n fit rest
    exact (read n rest).trans (if_pos fit)
  · intro n big rest
    exact ⟨.longVarint, (read n rest).trans (if_neg big)⟩

theorem law_tag : tag.Law (fun n => n < 2 ^ 32) := by
  have read (n : Nat) (rest : List UInt8) :=
    readVarint_writeVarint (show 15 < 128 by decide) 4 n rest
  constructor
  · intro n fit rest
    exact (read n rest).trans (if_pos fit)
  · intro n big rest
    exact ⟨.longVarint, (read n rest).trans (if_neg big)⟩

theorem unzigzag_zigzag (n : Int) : unzigzag (zigzag n) = n := by
  unfold unzigzag zigzag
  split <;> split <;> omega

theorem law_int : int.Law (fun _ => True) := by
  constructor
  · intro n _ rest
    have lower := n.le_toInt
    have upper := n.toInt_lt
    have fit : zigzag n.toInt < 2 ^ 64 := by
      unfold zigzag
      split <;> omega
    simp only [int, law_nat.accepts fit rest, unzigzag_zigzag,
      Int64.ofInt_toInt]
  · intro n absurdity
    exact (absurdity trivial).elim

theorem readBytes_append
    (bytes rest : List UInt8) :
    readBytes bytes.length (bytes ++ rest) = .ok (bytes, rest) := by
  rw [readBytes, if_neg (by simp), List.take_left, List.drop_left]

theorem length_wordBytes
    (word count : Nat) :
    (wordBytes word count).length = count := by
  induction count generalizing word with
  | zero => rfl
  | succ count inductionHypothesis => simp [wordBytes, inductionHypothesis]

theorem bytesWord_wordBytes
    {word count : Nat}
    (fit : word < 256 ^ count) :
    bytesWord (wordBytes word count) = word := by
  induction count generalizing word with
  | zero =>
      simp only [wordBytes, bytesWord]
      omega
  | succ count inductionHypothesis =>
      have high : word / 256 < 256 ^ count := by
        rw [Nat.div_lt_iff_lt_mul (by decide)]
        rwa [Nat.pow_succ] at fit
      simp only [wordBytes, bytesWord, inductionHypothesis high,
        toNat_ofNat (show word % 256 < 256 by omega)]
      omega

theorem law_double : double.Law (fun _ => True) := by
  constructor
  · intro x _ rest
    have bytes := readBytes_append (wordBytes x.bits.toNat 8) rest
    rw [length_wordBytes] at bytes
    have word : bytesWord (wordBytes x.bits.toNat 8) = x.bits.toNat :=
      bytesWord_wordBytes (show x.bits.toNat < 256 ^ 8 from x.bits.toNat_lt)
    simp only [double, bytes, word, UInt64.ofNat_toNat]
  · intro x absurdity
    exact (absurdity trivial).elim

theorem law_bool : bool.Law (fun _ => True) := by
  constructor
  · intro truth _ rest
    cases truth <;> rfl
  · intro truth absurdity
    exact (absurdity trivial).elim

/-- The bytes of an array as a list. -/
theorem byteArray_toList
    (bytes : ByteArray) :
    bytes.toList = bytes.data.toList := by
  have loop (index : Nat) (read : List UInt8) :
      ByteArray.toList.loop bytes index read =
        read.reverse ++ bytes.data.toList.drop index := by
    fun_induction ByteArray.toList.loop bytes index read with
    | case1 index read inside inductionHypothesis =>
        rw [inductionHypothesis]
        have here : bytes.data.toList.drop index =
            bytes.get! index :: bytes.data.toList.drop (index + 1) := by
          rw [List.drop_eq_getElem_cons (by simpa using inside)]
          congr 1
          exact (getElem!_pos bytes.data index inside).symm
        rw [here, List.reverse_cons, List.append_assoc]
        rfl
    | case2 index read outside =>
        have past : bytes.data.toList.drop index = [] := by
          rw [List.drop_eq_nil_iff]
          simpa using outside
        rw [past, List.append_nil]
  exact loop 0 []

theorem fromUTF8?_toUTF8 (text : String) :
    String.fromUTF8? ⟨text.toUTF8.toList.toArray⟩ = some text := by
  rw [byteArray_toList, Array.toArray_toList]
  exact dif_pos text.isValidUTF8

theorem law_string : string.Law (fun text => text.utf8ByteSize < 2 ^ 64) := by
  constructor
  · intro text fit rest
    have counted : text.utf8ByteSize = text.toUTF8.toList.length := by
      rw [byteArray_toList]
      rfl
    have bytes := readBytes_append text.toUTF8.toList rest
    rw [← counted] at bytes
    simp only [string, List.append_assoc, law_nat.accepts fit, bytes,
      fromUTF8?_toUTF8]
  · intro text big rest
    obtain ⟨fault, fails⟩ := law_nat.refuses big (text.toUTF8.toList ++ rest)
    exact ⟨fault, by simp only [string, List.append_assoc, fails]⟩

section Combinations

variable
  {first : Wire α}
  {second : Wire β}
  {firstFits : α → Prop}
  {secondFits : β → Prop}

theorem law_pair
    (firstLaw : first.Law firstFits)
    (secondLaw : second.Law secondFits) :
    (pair first second).Law
      (fun value => firstFits value.1 ∧ secondFits value.2) := by
  constructor
  · rintro ⟨a, b⟩ ⟨firstFit, secondFit⟩ rest
    simp only [pair, List.append_assoc, firstLaw.accepts firstFit,
      secondLaw.accepts secondFit]
  · rintro ⟨a, b⟩ misfit rest
    by_cases firstFit : firstFits a
    · have secondMisfit : ¬ secondFits b :=
        fun secondFit => misfit ⟨firstFit, secondFit⟩
      obtain ⟨fault, fails⟩ := secondLaw.refuses secondMisfit rest
      exact ⟨fault, by
        simp only [pair, List.append_assoc, firstLaw.accepts firstFit, fails]⟩
    · obtain ⟨fault, fails⟩ :=
        firstLaw.refuses firstFit (second.write b ++ rest)
      exact ⟨fault, by simp only [pair, List.append_assoc, fails]⟩

theorem readItems_accepts
    (law : first.Law firstFits)
    {values : List α}
    (fit : ∀ value ∈ values, firstFits value)
    (rest : List UInt8) :
    readItems first values.length (values.flatMap first.write ++ rest) =
      .ok (values, rest) := by
  induction values with
  | nil => rfl
  | cons value others inductionHypothesis =>
      have valueFit := fit value List.mem_cons_self
      have othersFit : ∀ other ∈ others, firstFits other :=
        fun other member => fit other (List.mem_cons_of_mem value member)
      simp only [List.length_cons, List.flatMap_cons, List.append_assoc,
        readItems, law.accepts valueFit, inductionHypothesis othersFit]

theorem readItems_refuses
    (law : first.Law firstFits)
    {values : List α}
    (misfit : ¬ ∀ value ∈ values, firstFits value)
    (rest : List UInt8) :
    ∃ fault,
      readItems first values.length (values.flatMap first.write ++ rest) =
      .error fault := by
  induction values with
  | nil => exact absurd (by simp) misfit
  | cons value others inductionHypothesis =>
      simp only [List.length_cons, List.flatMap_cons, List.append_assoc,
        readItems]
      by_cases valueFit : firstFits value
      · have othersMisfit : ¬ ∀ other ∈ others, firstFits other := by
          intro othersFit
          exact misfit (List.forall_mem_cons.mpr ⟨valueFit, othersFit⟩)
        obtain ⟨fault, fails⟩ := inductionHypothesis othersMisfit
        exact ⟨fault, by simp only [law.accepts valueFit, fails]⟩
      · obtain ⟨fault, fails⟩ :=
          law.refuses valueFit (others.flatMap first.write ++ rest)
        exact ⟨fault, by simp only [fails]⟩

theorem law_list (law : first.Law firstFits) :
    (list first).Law
      (fun values =>
        values.length < 2 ^ 64 ∧ ∀ value ∈ values, firstFits value) := by
  constructor
  · rintro values ⟨short, fit⟩ rest
    simp only [list, List.append_assoc, law_nat.accepts short,
      readItems_accepts law fit]
  · intro values misfit rest
    by_cases short : values.length < 2 ^ 64
    · have itemsMisfit : ¬ ∀ value ∈ values, firstFits value :=
        fun fit => misfit ⟨short, fit⟩
      obtain ⟨fault, fails⟩ := readItems_refuses law itemsMisfit rest
      exact ⟨fault,
        by simp only [list, List.append_assoc, law_nat.accepts short, fails]⟩
    · obtain ⟨fault, fails⟩ :=
        law_nat.refuses short (values.flatMap first.write ++ rest)
      exact ⟨fault, by simp only [list, List.append_assoc, fails]⟩

/--
Values in the format of another type, when taking them apart can be undone or is
refused.
-/
theorem law_via
    {encode : β → α}
    {decode : α → Option β}
    (law : first.Law firstFits)
    (undone : ∀ b, decode (encode b) = some b ∨ decode (encode b) = none) :
    (via first encode decode).Law
      (fun b => firstFits (encode b) ∧ decode (encode b) = some b) := by
  constructor
  · rintro b ⟨fit, decoded⟩ rest
    simp only [via, law.accepts fit, decoded]
  · intro b misfit rest
    by_cases fit : firstFits (encode b)
    · have refused : decode (encode b) = none :=
        (undone b).resolve_left fun decoded => misfit ⟨fit, decoded⟩
      exact ⟨.refused, by simp only [via, law.accepts fit, refused]⟩
    · obtain ⟨fault, fails⟩ := law.refuses fit rest
      exact ⟨fault, by simp only [via, fails]⟩

/-- A value of a short list that holds every value. -/
theorem law_enum
    [DecidableEq α]
    {values : List α}
    (complete : ∀ a, a ∈ values)
    (short : values.length ≤ 2 ^ 32) :
    (enum values).Law (fun _ => True) := by
  constructor
  · intro a _ rest
    have inside : values.idxOf a < values.length :=
      List.idxOf_lt_length_of_mem (complete a)
    have found : values[values.idxOf a]? = some a := by
      rw [List.getElem?_eq_getElem inside, List.getElem_idxOf]
    have fit : values.idxOf a < 2 ^ 32 := by omega
    simp only [enum, via, law_tag.accepts fit, found]
  · intro a absurdity
    exact (absurdity trivial).elim

/-- Behind its number, an alternative is read as its format says. -/
theorem readTagged_write
    {alternatives : Nat → Option (ByteReader β)}
    (number : Nat)
    {reader : ByteReader β}
    (small : number < 2 ^ 32)
    (known : alternatives number = some reader)
    (bytes : List UInt8) :
    readTagged alternatives (tag.write number ++ bytes) = reader bytes := by
  simp only [readTagged, law_tag.accepts small, known]

theorem alternative_accepts
    (law : first.Law firstFits)
    (build : α → β)
    {a : α}
    (fit : firstFits a)
    (rest : List UInt8) :
    alternative first build (first.write a ++ rest) = .ok (build a, rest) := by
  simp only [alternative, law.accepts fit]

theorem alternative_refuses
    (law : first.Law firstFits)
    (build : α → β)
    {a : α}
    (misfit : ¬ firstFits a)
    (rest : List UInt8) :
    ∃ fault,
      alternative first build (first.write a ++ rest) = .error fault := by
  obtain ⟨fault, fails⟩ := law.refuses misfit rest
  exact ⟨fault, by simp only [alternative, fails]⟩

end Combinations

end Wire

end Formulary
