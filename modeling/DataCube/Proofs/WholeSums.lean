import DataCube.Proofs.Rounding

/-!
# Sums of whole numbers

A sum of 64-bit integers in doubles is rounded at every step, but it stays a whole number, since
rounding takes whole numbers to whole numbers.  It also stays finite, however many integers there
are: from `2 ^ 117` on adding one more changes nothing.

* `Moderate`: whole numbers up to that bound.
* `whole_nearestMagnitude`: rounding takes whole numbers to whole numbers.
* `moderate_add`: adding an integer to such a number gives such a number.
-/

namespace DataCube.Binary64

/-- The magnitude bits of `2 ^ 117`. -/
def moderateMagnitude : Nat := (1023 + 117) * hiddenBit

/-- A whole number that is at most `2 ^ 117` from zero. -/
structure Moderate (x : Binary64) : Prop where
  bounded : x.magnitude ≤ moderateMagnitude
  whole : unitsPerOne ∣ units x.magnitude

theorem unitsPerOne_eq : unitsPerOne = 2 ^ 1074 := by
  -- the power is too large to be evaluated
  unfold unitsPerOne
  generalize 1074 = n
  exact Nat.one_shiftLeft n

theorem pow_dvd_unitsPerOne {s : Nat} (h : s ≤ 1074) : 2 ^ s ∣ unitsPerOne := by
  rw [unitsPerOne_eq]
  generalize 1074 = n at h
  exact Nat.pow_dvd_pow 2 h

theorem unitsPerOne_dvd_pow {s : Nat} (h : 1074 ≤ s) : unitsPerOne ∣ 2 ^ s := by
  rw [unitsPerOne_eq]
  generalize 1074 = n at h
  exact Nat.pow_dvd_pow 2 h

/-- The value of a power of two. -/
theorem units_powerOfTwo (e : Nat) : units ((1023 + e) * hiddenBit) = 2 ^ e * unitsPerOne := by
  have hgrid : (1023 + e) * hiddenBit = (e + 1022) * hiddenBit + hiddenBit := by
    rw [← Nat.add_one_mul, show e + 1022 + 1 = 1023 + e by omega]
  have hpow {k m : Nat} (h : 52 + k = m) : hiddenBit * 2 ^ (e + k) = 2 ^ e * 2 ^ m := by
    rw [← h, Nat.pow_add, Nat.pow_add, show hiddenBit = 2 ^ 52 from rfl, Nat.mul_left_comm]
  calc units ((1023 + e) * hiddenBit) = units ((e + 1022) * hiddenBit + hiddenBit) := by rw [hgrid]
    _ = hiddenBit * 2 ^ (e + 1022) := units_grid (by decide) fun _ => le_rfl
    _ = 2 ^ e * 2 ^ 1074 := hpow rfl
    _ = 2 ^ e * unitsPerOne := by rw [unitsPerOne_eq]

/-! ## Parts -/

variable {x : Binary64}

theorem natAbs_scaled (x : Binary64) : x.scaled.natAbs = units x.magnitude := by
  rw [scaled_eq]
  split <;> omega

namespace Moderate

theorem isFinite (h : x.Moderate) : x.isFinite = true :=
  decide_eq_true (Nat.lt_of_le_of_lt h.bounded (by decide))

theorem isNaN (h : x.Moderate) : x.isNaN = false :=
  decide_eq_false (Nat.not_lt.2 (Nat.le_trans h.bounded (by decide)))

theorem dvd_scaled (h : x.Moderate) : (unitsPerOne : Int) ∣ x.scaled := by
  rw [← Int.dvd_natAbs, natAbs_scaled]
  exact Int.natCast_dvd_natCast.2 h.whole

theorem isIntegral (h : x.Moderate) : x.isIntegral = true := by
  unfold Binary64.isIntegral
  rw [h.isFinite, Int.emod_eq_zero_of_dvd h.dvd_scaled]
  rfl

theorem natAbs_scaled_le (h : x.Moderate) : x.scaled.natAbs ≤ 2 ^ 117 * unitsPerOne := by
  rw [natAbs_scaled, ← units_powerOfTwo 117]
  exact units_mono h.bounded

end Moderate

/-! ## Rounding whole numbers -/

/-- Rounding takes whole numbers to whole numbers: either nothing is rounded away, or the result is
a multiple of even more than one. -/
theorem whole_nearestMagnitude {n : Nat} (h : unitsPerOne ∣ n)
    (hfinite : nearestMagnitude n 1 < infiniteMagnitude) :
    unitsPerOne ∣ units (nearestMagnitude n 1) := by
  rw [units_nearestMagnitude Nat.one_pos hfinite]
  rcases Nat.le_total (roundingShift n 1) 1074 with hle | hge
  · have hdvd : 2 ^ roundingShift n 1 ∣ n := Nat.dvd_trans (pow_dvd_unitsPerOne hle) h
    have hexact : roundedSignificand n 1 = n / 2 ^ roundingShift n 1 := by
      unfold roundedSignificand
      rw [Nat.one_mul]
      exact roundDiv_of_dvd hdvd
    rw [hexact, Nat.div_mul_cancel hdvd]
    exact h
  · exact Nat.dvd_mul_left_of_dvd (unitsPerOne_dvd_pow hge) _

theorem moderate_ofParts {negative : Bool} {n : Nat} (h : unitsPerOne ∣ n)
    (hbound : nearestMagnitude n 1 ≤ moderateMagnitude) :
    (ofParts negative (nearestMagnitude n 1)).Moderate := by
  have hmagnitude := magnitude_ofParts negative (nearestMagnitude_lt n 1)
  have hfinite : nearestMagnitude n 1 < infiniteMagnitude :=
    Nat.lt_of_le_of_lt hbound (by decide)
  constructor
  · rw [hmagnitude]
    exact hbound
  · rw [hmagnitude]
    exact whole_nearestMagnitude h hfinite

/-- A 64-bit integer is rounded to at most `2 ^ 63`. -/
theorem magnitude_ofInt_le {i : Int} (h : i.natAbs ≤ 2 ^ 63) :
    (ofInt i).magnitude ≤ (1023 + 63) * hiddenBit := by
  have htop : nearestMagnitude (2 ^ 63 * unitsPerOne) 1 = (1023 + 63) * hiddenBit := by
    decide +kernel
  rw [magnitude_ofInt, ← htop]
  exact nearestMagnitude_mono Nat.one_pos (Nat.mul_le_mul_right unitsPerOne h)

theorem moderate_ofInt {i : Int} (h : i.natAbs ≤ 2 ^ 63) : (ofInt i).Moderate := by
  have hle := magnitude_ofInt_le h
  rw [magnitude_ofInt] at hle
  exact moderate_ofParts (Nat.dvd_mul_left _ _) (Nat.le_trans hle (by decide))

theorem natAbs_scaled_ofInt_le {i : Int} (h : i.natAbs ≤ 2 ^ 63) :
    (ofInt i).scaled.natAbs ≤ 2 ^ 63 * unitsPerOne := by
  rw [natAbs_scaled, ← units_powerOfTwo 63]
  exact units_mono (magnitude_ofInt_le h)

/-! ## Sums -/

theorem moderate_zero : (0 : Binary64).Moderate := ⟨by decide, ⟨0, rfl⟩⟩

/-- From `2 ^ 117` on adding one more integer changes nothing. -/
theorem nearestMagnitude_moderate {n : Nat} (h : n ≤ (2 ^ 117 + 2 ^ 63) * unitsPerOne) :
    nearestMagnitude n 1 ≤ moderateMagnitude := by
  have htop : nearestMagnitude ((2 ^ 117 + 2 ^ 63) * unitsPerOne) 1 = moderateMagnitude := by
    decide +kernel
  rw [← htop]
  exact nearestMagnitude_mono Nat.one_pos h

theorem moderate_add (h : x.Moderate) {i : Int} (hi : i.natAbs ≤ 2 ^ 63) :
    (x + ofInt i).Moderate := by
  have hy := moderate_ofInt hi
  have hsum : x + ofInt i =
      ofScaled (x.isNegative && (ofInt i).isNegative) (x.scaled + (ofInt i).scaled) := by
    show lift sum x (ofInt i) = _
    rw [lift, h.isNaN, hy.isNaN, if_neg Bool.false_ne_true, if_neg Bool.false_ne_true, sum,
      h.isFinite, hy.isFinite, if_pos rfl, if_pos rfl]
  rw [hsum]
  refine moderate_ofParts ?_ (nearestMagnitude_moderate ?_)
  · rw [← Int.natCast_dvd_natCast, Int.dvd_natAbs]
    exact Int.dvd_add h.dvd_scaled hy.dvd_scaled
  · calc (x.scaled + (ofInt i).scaled).natAbs
        ≤ x.scaled.natAbs + (ofInt i).scaled.natAbs := Int.natAbs_add_le _ _
      _ ≤ 2 ^ 117 * unitsPerOne + 2 ^ 63 * unitsPerOne :=
        Nat.add_le_add h.natAbs_scaled_le (natAbs_scaled_ofInt_le hi)
      _ = (2 ^ 117 + 2 ^ 63) * unitsPerOne := (Nat.add_mul _ _ _).symm

end DataCube.Binary64
