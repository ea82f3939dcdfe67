import Formulary.Number.Layout
import Formulary.Proofs.Number.Rounding

namespace Formulary

/-!
# Decimals that read back

Reading a decimal depends on its value alone, a double written out in full reads
back to itself, and so does the shortest decimal.
-/

namespace Decimal

theorem ofDigits_eq
    (digits : List Char) :
    ofDigits digits = Nat.ofDigitChars 10 digits 0 :=
  rfl

@[simp]
theorem ofDigits_toDigits (n : Nat) : ofDigits (Nat.toDigits 10 n) = n :=
  Nat.ofDigitChars_ten_toDigits

/-- Zeros behind the digits of a number multiply it. -/
theorem ofDigits_append_zeros
    (digits : List Char)
    (count : Nat) :
    ofDigits (digits ++ List.replicate count '0') =
      ofDigits digits * 10 ^ count := by
  rw [ofDigits_eq, Nat.ofDigitChars_append, Nat.ofDigitChars_replicate_zero,
    Nat.mul_comm]
  rfl

/-- Zeros in front of the digits of a number change nothing. -/
theorem ofDigits_zeros_append
    (count : Nat)
    (digits : List Char) :
    ofDigits (List.replicate count '0' ++ digits) = ofDigits digits := by
  rw [ofDigits_eq, Nat.ofDigitChars_append, Nat.ofDigitChars_replicate_zero,
    Nat.mul_zero]
  rfl

theorem digitCount_pos (n : Nat) : 0 < digitCount n :=
  Nat.length_toDigits_pos

/-- A number has at most so many digits when it is below the power of ten. -/
theorem digitCount_le_iff
    {n count : Nat}
    (positive : 0 < count) :
    digitCount n ≤ count ↔ n < 10 ^ count :=
  Nat.length_toDigits_le_iff (by decide) positive

/-- Multiplying by ten adds a digit. -/
theorem digitCount_mul_pow
    {n : Nat}
    (positive : 0 < n)
    (count : Nat) :
    digitCount (n * 10 ^ count) = digitCount n + count := by
  induction count with
  | zero => simp
  | succ count inductionHypothesis =>
      have more : 0 < n * 10 ^ count := by positivity
      have appended := Nat.toDigits_append_toDigits (by decide : 1 < 10) more
        (by decide : 0 < 10)
      rw [Nat.pow_succ, ← Nat.mul_assoc, Nat.mul_comm _ 10, digitCount,
        ← Nat.add_zero (10 * _), ← appended, List.length_append]
      have one : (Nat.toDigits 10 0).length = 1 := by decide
      rw [one]
      exact congrArg (· + 1) inductionHypothesis

theorem toRatio_pos (d : Decimal) : 0 < d.toRatio.2 := by
  simp only [toRatio, Nat.pow_eq]
  positivity

/-- Zeros behind the digits, made up for in the exponent, change nothing. -/
theorem toDouble_shift
    (negative : Bool)
    (d : Decimal)
    (count : Nat) :
    toDouble negative ⟨d.digits * 10 ^ count, d.exponent - count⟩ =
      toDouble negative d := by
  rcases Nat.eq_zero_or_pos d.digits with zero | positive
  · simp [toDouble, zero]
  · have nonzero : ¬ d.digits * 10 ^ count = 0 := by positivity
    have sameScale :
        d.exponent - count + (digitCount (d.digits * 10 ^ count) : Int) =
          d.exponent + digitCount d.digits := by
      rw [digitCount_mul_pow positive]
      omega
    simp only [toDouble, nonzero, positive.ne', false_or, sameScale]
    split
    · rfl
    · split
      · rfl
      · refine Double.ofRatio_congr (toRatio_pos ⟨_, _⟩)
          d.toRatio_pos ?_ negative
        simp only [toRatio, Nat.pow_eq]
        have exponents :
            count + (d.exponent - count).toNat + (-d.exponent).toNat =
              d.exponent.toNat + (-(d.exponent - count)).toNat := by
          omega
        calc
          d.digits * 10 ^ count * 10 ^ (d.exponent - count).toNat *
              10 ^ (-d.exponent).toNat =
            d.digits *
              10 ^ (count + (d.exponent - count).toNat +
                (-d.exponent).toNat) := by ring
          _ = d.digits *
              10 ^ (d.exponent.toNat + (-(d.exponent - count)).toNat) := by
            rw [exponents]
          _ = d.digits * 10 ^ d.exponent.toNat *
              10 ^ (-(d.exponent - count)).toNat := by ring

/--
The significand of a nonzero double is positive and its exponent is bounded.
-/
theorem unpack_bounds
    {x : Double}
    (finite : x.isFinite = true)
    (nonzero : x.magnitude ≠ 0) :
    0 < x.unpack.1 ∧ x.unpack.1 < 2 ^ 53 ∧ -1074 ≤ x.unpack.2 ∧
      x.unpack.2 ≤ 971 := by
  have below : x.magnitude < Double.infinityMagnitude := by
    simpa [Double.isFinite] using finite
  obtain ⟨least, narrow, wide, packed⟩ := Double.unpack_spec finite
  simp only [Double.packMagnitude, Double.leastExponent, Double.binade,
    Double.infinityMagnitude] at *
  omega

/--
A double written out in full has digits, and its scale is neither too small nor
too large.
-/
theorem scale_exact
    {x : Double}
    (finite : x.isFinite = true)
    (nonzero : x.magnitude ≠ 0) :
    0 < (exact x).digits ∧
      -330 ≤ (exact x).exponent + digitCount (exact x).digits ∧
      (exact x).exponent + digitCount (exact x).digits ≤ 311 := by
  obtain ⟨positive, narrow, low, high⟩ := unpack_bounds finite nonzero
  simp only [exact, Nat.pow_eq]
  generalize x.unpack.1 = significand at *
  generalize x.unpack.2 = exponent at *
  obtain ⟨places, isPlaces⟩ : ∃ places : Nat, (-exponent).toNat = places :=
    ⟨_, rfl⟩
  have lowest : Min.min exponent 0 = -(places : Int) := by omega
  rw [isPlaces, lowest]
  have digitsPositive : 0 < significand * 2 ^ exponent.toNat * 5 ^ places := by
    positivity
  refine ⟨digitsPositive, ?_, ?_⟩
  · by_contra tooSmall
    obtain ⟨extra, isExtra⟩ : ∃ extra : Nat, places = 331 + extra :=
      ⟨places - 331, by omega⟩
    have extraPositive : 0 < extra := by
      have some :=
        digitCount_pos (significand * 2 ^ exponent.toNat * 5 ^ places)
      omega
    have few : significand * 2 ^ exponent.toNat * 5 ^ places < 10 ^ extra :=
      (digitCount_le_iff extraPositive).mp (by omega)
    have powers : 10 ^ extra ≤ 5 ^ places := by
      calc 10 ^ extra = 2 ^ extra * 5 ^ extra := by rw [← Nat.mul_pow]
        _ ≤ 2 ^ 743 * 5 ^ extra := by gcongr <;> omega
        _ ≤ 5 ^ 331 * 5 ^ extra := Nat.mul_le_mul_right _ (by decide +kernel)
        _ = 5 ^ places := by rw [isExtra, Nat.pow_add]
    have atLeast : 5 ^ places ≤ significand * 2 ^ exponent.toNat * 5 ^ places :=
      Nat.le_mul_of_pos_left _ (by positivity)
    omega
  · have enough : digitCount (significand * 2 ^ exponent.toNat * 5 ^ places) ≤
        311 + places := by
      rw [digitCount_le_iff (by omega)]
      have top : exponent.toNat ≤ 971 := by omega
      have whole : significand * 2 ^ exponent.toNat < 2 ^ 53 * 2 ^ 971 :=
        calc significand * 2 ^ exponent.toNat
            ≤ significand * 2 ^ 971 := by gcongr; decide
          _ < 2 ^ 53 * 2 ^ 971 := by gcongr
      calc significand * 2 ^ exponent.toNat * 5 ^ places
          < 2 ^ 53 * 2 ^ 971 * 10 ^ places :=
            Nat.mul_lt_mul_of_lt_of_le whole
              (Nat.pow_le_pow_left (by decide) places) (by positivity)
        _ ≤ 10 ^ 311 * 10 ^ places := Nat.mul_le_mul_right _ (by decide +kernel)
        _ = 10 ^ (311 + places) := by rw [Nat.pow_add]
    omega

/-- A double written out in full reads back. -/
theorem toDouble_exact
    {x : Double}
    (finite : x.isFinite = true)
    (nonzero : x.magnitude ≠ 0) :
    (exact x).toDouble false = x.abs := by
  obtain ⟨positive, low, high⟩ := scale_exact finite nonzero
  simp only [toDouble, positive.ne', false_or, not_lt.mpr low, not_lt.mpr high,
    if_false]
  refine Double.ofRatio_of_eq_toRatio finite (toRatio_pos _) ?_ false
  simp only [toRatio, exact, Double.toRatio, Nat.pow_eq]
  have whole : (Min.min x.unpack.2 0).toNat = 0 := by omega
  have part : (-Min.min x.unpack.2 0).toNat = (-x.unpack.2).toNat := by omega
  have powers : 10 ^ (-x.unpack.2).toNat =
      5 ^ (-x.unpack.2).toNat * 2 ^ (-x.unpack.2).toNat := by
    rw [← Nat.mul_pow]
  rw [whole, part, powers]
  ring

/-- A decimal found on a grid reads back. -/
theorem toDouble_of_onGrid?
    {x : Double}
    {exponent : Int}
    {d : Decimal}
    (found : onGrid? x exponent = some d) :
    d.toDouble false = x.abs := by
  simp only [onGrid?] at found
  split at found
  · rename_i lowerReads upperReads
    split at found
    · cases found
      exact eq_of_beq lowerReads
    · cases found
      exact eq_of_beq upperReads
  · rename_i lowerReads upperFails
    cases found
    exact eq_of_beq lowerReads
  · rename_i lowerFails upperReads
    cases found
    exact eq_of_beq upperReads
  · cases found

/-- The shortest decimal reads back. -/
theorem toDouble_shortest
    {x : Double}
    (finite : x.isFinite = true)
    (nonzero : x.magnitude ≠ 0) :
    (shortest x).toDouble false = x.abs := by
  simp only [shortest]
  cases found : (List.range 20).findSome? fun (step : Nat) =>
      onGrid? x (coarseExponent x - step) with
  | none => exact toDouble_exact finite nonzero
  | some d =>
      obtain ⟨step, -, onGrid⟩ := List.exists_of_findSome?_eq_some found
      exact toDouble_of_onGrid? onGrid

/-- The shortest decimal does not depend on the sign. -/
theorem shortest_abs (x : Double) : shortest x.abs = shortest x := by
  have sameUnpack : x.abs.unpack = x.unpack := by
    simp only [Double.unpack, Double.magnitude_abs]
  have sameRatio : x.abs.toRatio = x.toRatio := by
    simp only [Double.toRatio, sameUnpack]
  have sameAbs : x.abs.abs = x.abs :=
    Double.abs_of_not_isNegative x.isNegative_abs
  have sameGrid (exponent : Int) :
      onGrid? x.abs exponent = onGrid? x exponent := by
    unfold onGrid?
    rw [sameRatio, sameAbs]
  have sameCoarse : coarseExponent x.abs = coarseExponent x := by
    rw [coarseExponent, coarseExponent, sameUnpack]
  have sameExact : exact x.abs = exact x := by
    rw [exact, exact, sameUnpack]
  simp only [shortest, sameGrid, sameCoarse, sameExact]

end Decimal

end Formulary
