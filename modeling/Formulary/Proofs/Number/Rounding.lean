import Formulary.Proofs.Number.Double
import Mathlib.Algebra.Order.Field.Power
import Mathlib.Data.Nat.Log
import Mathlib.Tactic.FieldSimp
import Mathlib.Tactic.Linarith
import Mathlib.Tactic.NormNum
import Mathlib.Tactic.Positivity
import Mathlib.Tactic.Ring

namespace Formulary

/-!
# Rounding depends on the quotient alone

The place of a quotient is fixed by its size, so equal quotients round to the
same double, and a quotient that is a double rounds to that double.
-/

/-- Equal quotients round to the same integer. -/
theorem roundHalfEven_congr
    {a b c d : Nat}
    (bPositive : 0 < b)
    (dPositive : 0 < d)
    (same : a * d = c * b) :
    roundHalfEven a b = roundHalfEven c d := by
  have scaled (num den factor : Nat) (positive : 0 < factor) :
      roundHalfEven (num * factor) (den * factor) = roundHalfEven num den := by
    simp only [roundHalfEven, Nat.mul_div_mul_right num den positive,
      Nat.mul_mod_mul_right, ← Nat.mul_assoc, Nat.mul_lt_mul_right positive]
  rw [← scaled a b d dPositive, ← scaled c d b bPositive, same,
    Nat.mul_comm b d]

/-- Rounding goes up by one at most. -/
theorem roundHalfEven_le
    (num den : Nat) :
    roundHalfEven num den ≤ num / den + 1 := by
  simp only [roundHalfEven]
  split
  · omega
  · split <;> omega

/-- A whole number rounds to itself. -/
theorem roundHalfEven_mul_self
    (n : Nat)
    {unit : Nat}
    (positive : 0 < unit) :
    roundHalfEven (n * unit) unit = n := by
  simp [roundHalfEven, positive, Nat.mul_div_cancel n positive]

namespace Double

/-- The exponent of the last place of a quotient. -/
structure InPlace (quotient : ℚ) (place : Int) : Prop where
  least : leastExponent ≤ place
  small : quotient < 2 ^ (place + 53)
  large : place = leastExponent ∨ 2 ^ (place + 52) ≤ quotient

/-- A quotient has one place only. -/
theorem InPlace.unique
    {quotient : ℚ}
    {first second : Int}
    (one : InPlace quotient first)
    (other : InPlace quotient second) :
    first = second := by
  have below {p r : Int} (isP : InPlace quotient p) (isR : InPlace quotient r) :
      r ≤ p := by
    rcases isR.large with isLeast | atLeast
    · exact isLeast ▸ isP.least
    · have ordered : (2 : ℚ) ^ (r + 52) < 2 ^ (p + 53) :=
        lt_of_le_of_lt atLeast isP.small
      have exponents :=
        (zpow_lt_zpow_iff_right₀ (by norm_num : (1 : ℚ) < 2)).mp ordered
      omega
  exact le_antisymm (below other one) (below one other)

/-- Counting in units of a power of two divides by it. -/
theorem scaledByPow2_eq
    (num den : Nat)
    (exponent : Int) :
    ((scaledByPow2 num den exponent).1 : ℚ) /
      (scaledByPow2 num den exponent).2 =
      num / den / 2 ^ exponent := by
  simp only [scaledByPow2, Nat.pow_eq, Nat.cast_mul, Nat.cast_pow,
    Nat.cast_ofNat]
  rcases le_total 0 exponent with nonnegative | nonpositive
  · obtain ⟨n, rfl⟩ := Int.eq_ofNat_of_zero_le nonnegative
    simp [div_div]
  · obtain ⟨n, rfl⟩ := Int.exists_eq_neg_ofNat nonpositive
    simp [mul_div_right_comm]

theorem scaledByPow2_pos
    {den : Nat}
    (positive : 0 < den)
    (num : Nat)
    (exponent : Int) :
    0 < (scaledByPow2 num den exponent).2 := by
  simp only [scaledByPow2, Nat.pow_eq]
  positivity

/-- Whether a quotient has more than 53 digits before a place. -/
theorem exceeds_iff
    {den : Nat}
    (positive : 0 < den)
    (num : Nat)
    (place : Int) :
    2 * binade ≤
      (scaledByPow2 num den place).1 / (scaledByPow2 num den place).2 ↔
      (2 : ℚ) ^ (place + 53) ≤ num / den := by
  have unitPositive : (0 : ℚ) < (scaledByPow2 num den place).2 := by
    exact_mod_cast scaledByPow2_pos positive num place
  have powerPositive : (0 : ℚ) < 2 ^ place := by positivity
  have width : ((2 * binade : Nat) : ℚ) = 2 ^ (53 : Int) := by norm_num [binade]
  rw [Nat.le_div_iff_mul_le (scaledByPow2_pos positive num place),
    ← @Nat.cast_le ℚ, Nat.cast_mul, width, ← le_div_iff₀ unitPositive,
    scaledByPow2_eq, le_div_iff₀ powerPositive,
    ← zpow_add₀ (by norm_num : (2 : ℚ) ≠ 0), add_comm place]

/--
A positive quotient lies between the powers of two given by the lengths of its
terms.
-/
theorem bounds_of_log2
    {num den : Nat}
    (numPositive : 0 < num)
    (denPositive : 0 < den) :
    (2 : ℚ) ^ ((num.log2 : Int) - den.log2 - 1) ≤ num / den ∧
      (num / den : ℚ) < 2 ^ ((num.log2 : Int) - den.log2 + 1) := by
  have two : (2 : ℚ) ≠ 0 := by norm_num
  have numLow : (2 : ℚ) ^ (num.log2 : Int) ≤ num := by
    exact_mod_cast Nat.log2_self_le numPositive.ne'
  have numHigh : (num : ℚ) < 2 ^ ((num.log2 : Int) + 1) := by
    exact_mod_cast Nat.lt_log2_self
  have denLow : (2 : ℚ) ^ (den.log2 : Int) ≤ den := by
    exact_mod_cast Nat.log2_self_le denPositive.ne'
  have denHigh : (den : ℚ) < 2 ^ ((den.log2 : Int) + 1) := by
    exact_mod_cast Nat.lt_log2_self
  have positive : (0 : ℚ) < den := by exact_mod_cast denPositive
  constructor
  · rw [le_div_iff₀ positive]
    calc (2 : ℚ) ^ ((num.log2 : Int) - den.log2 - 1) * den
        ≤ 2 ^ ((num.log2 : Int) - den.log2 - 1) *
            2 ^ ((den.log2 : Int) + 1) := by gcongr
      _ = 2 ^ (num.log2 : Int) := by
          rw [← zpow_add₀ two]
          congr 1
          omega
      _ ≤ num := numLow
  · rw [div_lt_iff₀ positive]
    calc (num : ℚ)
        < 2 ^ ((num.log2 : Int) + 1) := numHigh
      _ = 2 ^ ((num.log2 : Int) - den.log2 + 1) * 2 ^ (den.log2 : Int) := by
          rw [← zpow_add₀ two]
          congr 1
          omega
      _ ≤ 2 ^ ((num.log2 : Int) - den.log2 + 1) * den := by gcongr

/-- The place that is computed is the place of the quotient. -/
theorem inPlace_placeOf
    (num : Nat)
    {den : Nat}
    (denPositive : 0 < den) :
    InPlace (num / den) (placeOf num den) := by
  have powers : (1 : ℚ) ≤ 2 := by norm_num
  rcases Nat.eq_zero_or_pos num with rfl | numPositive
  · have notExceeded : ¬ 2 * binade ≤
        (scaledByPow2 0 den leastExponent).1 /
          (scaledByPow2 0 den leastExponent).2 := by
      simp [scaledByPow2, binade]
    simp only [placeOf, true_or, if_true, notExceeded, if_false]
    refine ⟨le_rfl, ?_, .inl rfl⟩
    rw [Nat.cast_zero, zero_div]
    positivity
  · obtain ⟨low, high⟩ := bounds_of_log2 numPositive denPositive
    simp only [placeOf, numPositive.ne', false_or, exceeds_iff denPositive]
    generalize (num.log2 : Int) - den.log2 = length at low high
    by_cases tiny : length - 53 < leastExponent
    · have notExceeded : ¬ (2 : ℚ) ^ (leastExponent + 53) ≤ num / den := by
        rw [not_le]
        exact lt_of_lt_of_le high (zpow_le_zpow_right₀ powers (by omega))
      simp only [tiny, if_true, notExceeded, if_false]
      exact ⟨le_rfl, not_le.mp notExceeded, .inl rfl⟩
    · simp only [tiny, if_false]
      split
      · rename_i exceeded
        refine ⟨by omega,
          lt_of_lt_of_le high (zpow_le_zpow_right₀ powers (by omega)), .inr ?_⟩
        rw [show length - 53 + 1 + 52 = length - 53 + 53 by omega]
        exact exceeded
      · rename_i notExceeded
        refine ⟨by omega, not_le.mp notExceeded, .inr ?_⟩
        rw [show length - 53 + 52 = length - 1 by omega]
        exact low

/-- Equal quotients round to the same double. -/
theorem ofRatio_congr
    {a b c d : Nat}
    (bPositive : 0 < b)
    (dPositive : 0 < d)
    (same : a * d = c * b)
    (negative : Bool) :
    ofRatio negative a b = ofRatio negative c d := by
  have bNonzero : (b : ℚ) ≠ 0 := by exact_mod_cast bPositive.ne'
  have dNonzero : (d : ℚ) ≠ 0 := by exact_mod_cast dPositive.ne'
  have sameQuotient : (a : ℚ) / b = c / d := by
    rw [div_eq_div_iff bNonzero dNonzero]
    exact_mod_cast same
  have samePlace : placeOf a b = placeOf c d :=
    (inPlace_placeOf a bPositive).unique
      (sameQuotient ▸ inPlace_placeOf c dPositive)
  have sameRounded :
      roundHalfEven (scaledByPow2 a b (placeOf c d)).1
        (scaledByPow2 a b (placeOf c d)).2 =
        roundHalfEven (scaledByPow2 c d (placeOf c d)).1
          (scaledByPow2 c d (placeOf c d)).2 := by
    refine roundHalfEven_congr (scaledByPow2_pos bPositive _ _)
      (scaledByPow2_pos dPositive _ _) ?_
    simp only [scaledByPow2]
    calc
      a * Nat.pow 2 (-placeOf c d).toNat * (d * Nat.pow 2 (placeOf c d).toNat) =
        a * d *
          (Nat.pow 2 (-placeOf c d).toNat * Nat.pow 2 (placeOf c d).toNat) := by
        ring
      _ = c * b *
          (Nat.pow 2 (-placeOf c d).toNat * Nat.pow 2 (placeOf c d).toNat) := by
        rw [same]
      _ = c * Nat.pow 2 (-placeOf c d).toNat *
          (b * Nat.pow 2 (placeOf c d).toNat) := by ring
  simp only [ofRatio, samePlace, sameRounded]

/--
A quotient below the largest power of two that is a double rounds to a finite
one.
-/
theorem isFinite_ofRatio
    {num den : Nat}
    (denPositive : 0 < den)
    (small : (num / den : ℚ) < 2 ^ (1023 : Int))
    (negative : Bool) :
    (ofRatio negative num den).isFinite = true := by
  obtain ⟨-, narrow, wide⟩ := inPlace_placeOf num denPositive
  have place : placeOf num den ≤ 970 := by
    rcases wide with isLeast | atLeast
    · simp [isLeast, leastExponent]
    · have ordered : (2 : ℚ) ^ (placeOf num den + 52) < 2 ^ (1023 : Int) :=
        lt_of_le_of_lt atLeast small
      have exponents :=
        (zpow_lt_zpow_iff_right₀ (by norm_num : (1 : ℚ) < 2)).mp ordered
      omega
  have notExceeded :=
    (exceeds_iff denPositive num (placeOf num den)).not.mpr (not_le.mpr narrow)
  have rounded := roundHalfEven_le (scaledByPow2 num den (placeOf num den)).1
    (scaledByPow2 num den (placeOf num den)).2
  have packed :
      packMagnitude (roundHalfEven (scaledByPow2 num den (placeOf num den)).1
        (scaledByPow2 num den (placeOf num den)).2) (placeOf num den) <
          infinityMagnitude := by
    refine lt_of_le_of_lt (Nat.min_le_left _ _) ?_
    simp only [leastExponent, binade, infinityMagnitude] at notExceeded ⊢
    omega
  simp only [isFinite, ofRatio, magnitude_ofMagnitude (packMagnitude_lt _ _),
    packed, decide_true]

/-- The double nearest to a word is finite. -/
theorem isFinite_ofInt64 (n : Int64) : (ofInt64 n).isFinite = true := by
  refine isFinite_ofRatio Nat.one_pos ?_ _
  have low := n.le_toInt
  have high := n.toInt_lt
  have bounded : n.toInt.natAbs < 2 ^ 64 := by
    omega
  have cast : (n.toInt.natAbs : ℚ) < 2 ^ (64 : Int) := by
    exact_mod_cast bounded
  rw [Nat.cast_one, div_one]
  exact cast.trans (zpow_lt_zpow_right₀ (by norm_num) (by norm_num))

/-- The significand and the exponent of a finite double. -/
theorem unpack_spec
    {x : Double}
    (finite : x.isFinite = true) :
    leastExponent ≤ x.unpack.2 ∧ x.unpack.1 < 2 * binade ∧
      (x.unpack.2 = leastExponent ∨ binade ≤ x.unpack.1) ∧
      packMagnitude x.unpack.1 x.unpack.2 = x.magnitude := by
  have below : x.magnitude < infinityMagnitude := by
    simpa [isFinite] using finite
  have fraction := Nat.mod_lt x.magnitude (by decide : 0 < binade)
  have parts := Nat.div_add_mod x.magnitude binade
  unfold unpack packMagnitude
  by_cases subnormal : x.magnitude / binade = 0
  · simp only [subnormal, if_true]
    rw [subnormal] at parts
    refine ⟨le_rfl, by omega, .inl trivial, ?_⟩
    rw [Int.sub_self, Int.toNat_zero]
    omega
  · simp only [subnormal, if_false]
    refine ⟨by omega, by omega, .inr (by omega), ?_⟩
    have offset :
        (leastExponent + ((x.magnitude / binade - 1 : Nat) : Int) -
          leastExponent).toNat =
          x.magnitude / binade - 1 := by
      omega
    have split :
        (x.magnitude / binade - 1) * binade + (binade + x.magnitude % binade) =
          x.magnitude := by
      calc (x.magnitude / binade - 1) * binade + (binade + x.magnitude % binade)
          = (x.magnitude / binade - 1 + 1) * binade + x.magnitude % binade := by
            ring
        _ = x.magnitude / binade * binade + x.magnitude % binade := by
            rw [Nat.sub_add_cancel (Nat.pos_of_ne_zero subnormal)]
        _ = x.magnitude := Nat.div_add_mod' _ _
    rw [offset, split]
    exact Nat.min_eq_left below.le

theorem toRatio_pos (x : Double) : 0 < x.toRatio.2 := by
  simp only [toRatio, Nat.pow_eq]
  positivity

/-- A quotient that is a finite double rounds to its magnitude. -/
theorem ofRatio_of_eq_toRatio
    {x : Double}
    (finite : x.isFinite = true)
    {num den : Nat}
    (denPositive : 0 < den)
    (same : num * x.toRatio.2 = x.toRatio.1 * den)
    (negative : Bool) :
    ofRatio negative num den = ofMagnitude negative x.magnitude := by
  rw [ofRatio_congr denPositive x.toRatio_pos same]
  obtain ⟨least, narrow, wide, packed⟩ := unpack_spec finite
  have quotient :
      (x.toRatio.1 : ℚ) / x.toRatio.2 = x.unpack.1 * 2 ^ x.unpack.2 := by
    have scaled := scaledByPow2_eq x.unpack.1 1 (-x.unpack.2)
    simpa [scaledByPow2, toRatio] using scaled
  have power : (0 : ℚ) < 2 ^ x.unpack.2 := by positivity
  have two : (2 : ℚ) ≠ 0 := by norm_num
  have inPlace : InPlace (x.toRatio.1 / x.toRatio.2) x.unpack.2 := by
    rw [quotient]
    refine ⟨least, ?_, wide.imp_right fun atLeast => ?_⟩
    · rw [add_comm, zpow_add₀ two]
      have bound : (x.unpack.1 : ℚ) < 2 ^ (53 : Int) := by
        have cast : (x.unpack.1 : ℚ) < ((2 * binade : Nat) : ℚ) := by
          exact_mod_cast narrow
        norm_num [binade] at cast ⊢
        exact cast
      gcongr
    · rw [add_comm, zpow_add₀ two]
      have bound : (2 : ℚ) ^ (52 : Int) ≤ x.unpack.1 := by
        have cast : ((binade : Nat) : ℚ) ≤ x.unpack.1 := by
          exact_mod_cast atLeast
        norm_num [binade] at cast ⊢
        exact cast
      gcongr
  have place : placeOf x.toRatio.1 x.toRatio.2 = x.unpack.2 :=
    (inPlace_placeOf _ x.toRatio_pos).unique inPlace
  have rounded :
      roundHalfEven (scaledByPow2 x.toRatio.1 x.toRatio.2 x.unpack.2).1
        (scaledByPow2 x.toRatio.1 x.toRatio.2 x.unpack.2).2 = x.unpack.1 := by
    refine Eq.trans
      (roundHalfEven_congr (scaledByPow2_pos x.toRatio_pos _ _) Nat.one_pos ?_)
      (roundHalfEven_mul_self x.unpack.1 Nat.one_pos)
    simp only [scaledByPow2, toRatio]
    ring
  simp only [ofRatio, place, rounded, packed]

end Double

end Formulary
