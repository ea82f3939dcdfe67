import Formulary.Number.Integer

namespace Formulary

/-!
# Signs and magnitudes

A double is its sign and its magnitude: taking them apart and putting them
together again loses nothing.
-/

namespace Double

theorem magnitude_lt (x : Double) : x.magnitude < signWeight :=
  Nat.mod_lt _ (by decide)

/-- A finite number is a number. -/
theorem isNaN_of_isFinite
    {x : Double}
    (finite : x.isFinite = true) :
    x.isNaN = false := by
  simp only [isFinite, isNaN, decide_eq_true_eq,
    decide_eq_false_iff_not] at finite ⊢
  omega

section OfMagnitude

variable {magnitude : Nat} (small : magnitude < signWeight)
include small

theorem toNat_bits_ofMagnitude (negative : Bool) :
    (ofMagnitude negative magnitude).bits.toNat =
      if negative then signWeight + magnitude else magnitude := by
  have bounded :
      (if negative then signWeight + magnitude else magnitude) < 2 ^ 64 := by
    simp only [signWeight] at small ⊢
    split <;> omega
  simpa [ofMagnitude] using Nat.mod_eq_of_lt bounded

theorem isNegative_ofMagnitude (negative : Bool) :
    (ofMagnitude negative magnitude).isNegative = negative := by
  rw [isNegative, toNat_bits_ofMagnitude small]
  cases negative with
  | true => simp
  | false => simpa using small

theorem magnitude_ofMagnitude (negative : Bool) :
    (ofMagnitude negative magnitude).magnitude = magnitude := by
  rw [Double.magnitude, toNat_bits_ofMagnitude small]
  cases negative with
  | true => simpa using Nat.mod_eq_of_lt small
  | false => simpa using Nat.mod_eq_of_lt small

end OfMagnitude

/-- A double is put together from its sign and its magnitude. -/
theorem ofMagnitude_magnitude
    (x : Double) :
    ofMagnitude x.isNegative x.magnitude = x := by
  obtain ⟨bits⟩ := x
  have bounded := bits.toNat_lt
  rw [ofMagnitude, Double.mk.injEq, ← UInt64.toNat_inj, UInt64.toNat_ofNat']
  cases negative : (⟨bits⟩ : Double).isNegative with
  | true =>
      have high : signWeight ≤ bits.toNat := by
        simpa [isNegative] using negative
      simp only [magnitude, signWeight, if_true] at high ⊢
      omega
  | false =>
      have low : bits.toNat < signWeight := by
        simpa [isNegative] using negative
      simp only [magnitude, signWeight] at low ⊢
      rw [if_neg (by decide)]
      omega

/-- Doubles with the same sign and magnitude are the same. -/
theorem eq_of_magnitude
    {x y : Double}
    (sameSign : x.isNegative = y.isNegative)
    (sameMagnitude : x.magnitude = y.magnitude) :
    x = y := by
  rw [← ofMagnitude_magnitude x, ← ofMagnitude_magnitude y, sameSign,
    sameMagnitude]

@[simp]
theorem isNegative_neg (x : Double) : x.neg.isNegative = !x.isNegative :=
  isNegative_ofMagnitude x.magnitude_lt _

@[simp]
theorem magnitude_neg (x : Double) : x.neg.magnitude = x.magnitude :=
  magnitude_ofMagnitude x.magnitude_lt _

@[simp]
theorem isNegative_abs (x : Double) : x.abs.isNegative = false :=
  isNegative_ofMagnitude x.magnitude_lt _

@[simp]
theorem magnitude_abs (x : Double) : x.abs.magnitude = x.magnitude :=
  magnitude_ofMagnitude x.magnitude_lt _

/-- Without its sign, a negative number is its opposite. -/
theorem neg_abs_of_isNegative
    {x : Double}
    (negative : x.isNegative = true) :
    x.abs.neg = x :=
  eq_of_magnitude (by simp [negative]) (by simp)

/-- A number that is not negative is its own absolute value. -/
theorem abs_of_not_isNegative
    {x : Double}
    (nonnegative : x.isNegative = false) :
    x.abs = x :=
  eq_of_magnitude (by simp [nonnegative]) (by simp)

theorem packMagnitude_lt
    (significand : Nat)
    (exponent : Int) :
    packMagnitude significand exponent < signWeight :=
  Nat.lt_of_le_of_lt (Nat.min_le_right _ _) (by decide)

@[simp]
theorem isNegative_ofRatio
    (negative : Bool)
    (num den : Nat) :
    (ofRatio negative num den).isNegative = negative :=
  isNegative_ofMagnitude (packMagnitude_lt _ _) negative

end Double

end Formulary
