import Mathlib.Algebra.Order.BigOperators.Group.List
import Mathlib.Algebra.Order.Group.Nat
import Mathlib.Algebra.Order.Ring.Int
import Mathlib.Data.List.Induction
import DataCube.Proofs.WholeSums

/-!
# Exact sums

Rounding changes nothing about a number that a double equals.  So a sum of doubles, added up in any
grouping, is the double equal to the exact sum, as long as all the sums on the way are doubles.

* `Representable`: a number of units that some double equals.
* `nearestMagnitude_units`, `Representable.scaled_ofScaled`: rounding such a number.
* `ofScaled_add`: one more summand.
* `ExactSums`: no sum of neighbours has to be rounded.
* `foldl_add_of_exactSums`: adding up such a list.
* `exactSums_ofInt`: integers that together do not go beyond `2 ^ 53` are such a list.
-/

namespace DataCube.Binary64

/-! ## Exact rounding -/

theorem units_nearestMagnitude_of_dvd {n : Nat} (h : 2 ^ roundingShift n 1 ∣ n)
    (hfinite : nearestMagnitude n 1 < infiniteMagnitude) : units (nearestMagnitude n 1) = n := by
  have hexact : roundedSignificand n 1 = n / 2 ^ roundingShift n 1 := by
    unfold roundedSignificand
    rw [Nat.one_mul]
    exact roundDiv_of_dvd h
  rw [units_nearestMagnitude Nat.one_pos hfinite, hexact, Nat.div_mul_cancel h]

/-- A place on the grid is rounded with the exponent it has. -/
theorem roundingShift_grid {s r : Nat} (hr : r < 2 * hiddenBit) (hs : s ≠ 0 → hiddenBit ≤ r) :
    roundingShift (r * 2 ^ s) 1 = s := by
  apply Nat.le_antisymm
  · by_contra hlt
    have hne : roundingShift (r * 2 ^ s) 1 ≠ 0 := by omega
    have hpow : 2 ^ (s + 1) ≤ 2 ^ roundingShift (r * 2 ^ s) 1 :=
      Nat.pow_le_pow_right (by decide) (by omega)
    have hlow : 2 ^ s * (2 * hiddenBit) ≤ 2 ^ s * r := by
      calc 2 ^ s * (2 * hiddenBit) = 2 ^ (s + 1) * hiddenBit := by
            rw [Nat.pow_succ, Nat.mul_assoc]
        _ ≤ 1 * 2 ^ roundingShift (r * 2 ^ s) 1 * hiddenBit := by
            rw [Nat.one_mul]
            exact Nat.mul_le_mul_right hiddenBit hpow
        _ ≤ r * 2 ^ s := le_of_roundingShift hne
        _ = 2 ^ s * r := Nat.mul_comm _ _
    exact absurd (Nat.le_of_mul_le_mul_left hlow (Nat.two_pow_pos s)) (by omega)
  · by_contra hlt
    have hnormal : hiddenBit ≤ r := hs (by omega)
    have hpow : 2 ^ (roundingShift (r * 2 ^ s) 1 + 1) ≤ 2 ^ s :=
      Nat.pow_le_pow_right (by decide) (by omega)
    have hhigh : r * 2 ^ s < hiddenBit * 2 ^ s := by
      calc r * 2 ^ s < 1 * 2 ^ roundingShift (r * 2 ^ s) 1 * (2 * hiddenBit) :=
            lt_of_roundingShift Nat.one_pos
        _ = hiddenBit * 2 ^ (roundingShift (r * 2 ^ s) 1 + 1) := by
            rw [Nat.one_mul, Nat.pow_succ, Nat.mul_comm 2 hiddenBit, Nat.mul_left_comm]
        _ ≤ hiddenBit * 2 ^ s := Nat.mul_le_mul_left _ hpow
    exact absurd (Nat.lt_of_mul_lt_mul_right hhigh) (Nat.not_lt.2 hnormal)

/-- Rounding changes nothing about the value of a double. -/
theorem nearestMagnitude_units {m : Nat} (h : m < infiniteMagnitude) :
    nearestMagnitude (units m) 1 = m := by
  obtain ⟨s, r, rfl, hr, hs⟩ := exists_grid m
  have hshift := roundingShift_grid hr hs
  have hsignificand : roundedSignificand (r * 2 ^ s) 1 = r := by
    unfold roundedSignificand
    rw [hshift, Nat.one_mul, roundDiv_mul (Nat.two_pow_pos s)]
  rw [units_grid hr.le hs, nearestMagnitude_eq, hshift, hsignificand, min_eq_left h.le]

/-! ## Representable numbers -/

/-- Some double has this value, in units. -/
def Representable (u : Int) : Prop := ∃ x : Binary64, x.isFinite = true ∧ x.scaled = u

variable {u : Int} {negativeZero : Bool}

theorem magnitude_ofScaled (negativeZero : Bool) (u : Int) :
    (ofScaled negativeZero u).magnitude = nearestMagnitude u.natAbs 1 :=
  magnitude_ofParts _ (nearestMagnitude_lt _ _)

theorem isNegative_ofScaled (negativeZero : Bool) (u : Int) :
    (ofScaled negativeZero u).isNegative = if u = 0 then negativeZero else decide (u < 0) :=
  isNegative_ofParts _ (nearestMagnitude_lt _ _)

theorem scaled_ofScaled_of_units (h : units (nearestMagnitude u.natAbs 1) = u.natAbs) :
    (ofScaled negativeZero u).scaled = u := by
  rw [scaled_eq, isNegative_ofScaled, magnitude_ofScaled, h]
  by_cases hzero : u = 0
  · subst hzero
    cases negativeZero <;> rfl
  · rw [if_neg hzero]
    by_cases hneg : u < 0
    · rw [decide_eq_true hneg, if_pos rfl]
      omega
    · rw [decide_eq_false hneg, if_neg Bool.false_ne_true]
      omega

namespace Representable

/-- It is rounded to the magnitude of the double that has it. -/
theorem rounded (h : Representable u) : nearestMagnitude u.natAbs 1 < infiniteMagnitude ∧
    units (nearestMagnitude u.natAbs 1) = u.natAbs := by
  obtain ⟨x, hfinite, rfl⟩ := h
  have hlt : x.magnitude < infiniteMagnitude := of_decide_eq_true hfinite
  rw [natAbs_scaled, nearestMagnitude_units hlt]
  exact ⟨hlt, rfl⟩

theorem isFinite_ofScaled (h : Representable u) : (ofScaled negativeZero u).isFinite = true := by
  unfold isFinite
  rw [magnitude_ofScaled]
  exact decide_eq_true h.rounded.1

theorem scaled_ofScaled (h : Representable u) : (ofScaled negativeZero u).scaled = u :=
  scaled_ofScaled_of_units h.rounded.2

end Representable

theorem not_isNaN_of_isFinite {x : Binary64} (h : x.isFinite = true) : x.isNaN = false :=
  decide_eq_false (Nat.not_lt.2 (Nat.le_of_lt (of_decide_eq_true h)))

/-- The sum of two finite doubles is rounded from the exact sum. -/
theorem add_of_isFinite {x y : Binary64} (hx : x.isFinite = true) (hy : y.isFinite = true) :
    x + y = ofScaled (x.isNegative && y.isNegative) (x.scaled + y.scaled) := by
  show lift sum x y = _
  rw [lift, not_isNaN_of_isFinite hx, not_isNaN_of_isFinite hy, if_neg Bool.false_ne_true,
    if_neg Bool.false_ne_true, sum, hx, hy, if_pos rfl, if_pos rfl]

/-- Adding to an exact sum gives the exact sum, rounded once; a sum of zero is positive. -/
theorem ofScaled_add (hu : Representable u) {y : Binary64} (hy : y.isFinite = true) :
    ofScaled false u + y = ofScaled false (u + y.scaled) := by
  rw [add_of_isFinite hu.isFinite_ofScaled hy, hu.scaled_ofScaled, isNegative_ofScaled]
  by_cases hzero : u = 0
  · rw [if_pos hzero, Bool.false_and]
  · rw [if_neg hzero]
    by_cases hsum : u + y.scaled = 0
    · -- one of two numbers that cancel out is positive
      have hsign : (decide (u < 0) && y.isNegative) = false := by
        rw [scaled_eq] at hsum
        cases hnegative : y.isNegative with
        | false => exact Bool.and_false _
        | true =>
          rw [hnegative, if_pos rfl] at hsum
          rw [Bool.and_true]
          exact decide_eq_false (by omega)
      rw [hsign]
    · unfold ofScaled
      rw [if_neg hsum, if_neg hsum]

/-! ## Sums of neighbours -/

/-- The exact sum of a list of doubles, in units. -/
def exactSum (xs : List Binary64) : Int := (xs.map scaled).sum

/-- Finite doubles such that no sum of neighbours has to be rounded. -/
structure ExactSums (xs : List Binary64) : Prop where
  finite : ∀ x ∈ xs, x.isFinite = true
  representable : ∀ part, part <:+: xs → Representable (exactSum part)

theorem exactSum_append (xs ys : List Binary64) :
    exactSum (xs ++ ys) = exactSum xs + exactSum ys := by
  unfold exactSum
  rw [List.map_append, List.sum_append]

namespace ExactSums

variable {xs ys : List Binary64}

theorem of_infix (h : ExactSums xs) (hys : ys <:+: xs) : ExactSums ys where
  finite x hx := h.finite x (hys.subset hx)
  representable part hpart := h.representable part (hpart.trans hys)

/-- Adding up a list from the first on gives its exact sum. -/
theorem foldl_add (h : ExactSums xs) : xs.foldl (· + ·) 0 = ofScaled false (exactSum xs) := by
  induction xs using List.reverseRecOn with
  | nil => decide
  | append_singleton xs x ih =>
    have hprefix : xs <:+: xs ++ [x] := (List.prefix_append xs [x]).isInfix
    have hx : x.isFinite = true := h.finite x (by simp)
    rw [List.foldl_append, ih (h.of_infix hprefix), List.foldl_cons, List.foldl_nil,
      ofScaled_add (h.representable xs hprefix) hx, exactSum_append]
    simp [exactSum]

/-- The exact sums of two adjacent parts add up to that of both. -/
theorem ofScaled_append (h : ExactSums (xs ++ ys)) :
    ofScaled false (exactSum xs) + ofScaled false (exactSum ys) =
      ofScaled false (exactSum (xs ++ ys)) := by
  have hxs : Representable (exactSum xs) := h.representable xs (List.prefix_append xs ys).isInfix
  have hys : Representable (exactSum ys) := h.representable ys (List.suffix_append xs ys).isInfix
  rw [ofScaled_add hxs hys.isFinite_ofScaled, hys.scaled_ofScaled, exactSum_append]

end ExactSums

/-! ## Integers -/

/-- A number of at most 53 bits, doubled any number of times, has its leading digits on the grid. -/
theorem pow_dvd_of_le {n s k : Nat} (hn : n ≤ 2 * hiddenBit) (h : 2 ^ s * hiddenBit ≤ n * 2 ^ k) :
    2 ^ s ∣ n * 2 ^ k := by
  rcases Nat.le_total s k with hle | hge
  · exact Nat.dvd_mul_left_of_dvd (Nat.pow_dvd_pow 2 hle) n
  · obtain ⟨t, rfl⟩ := Nat.exists_eq_add_of_le hge
    have hbound : 2 ^ t * hiddenBit ≤ n := by
      rw [Nat.pow_add, Nat.mul_assoc, Nat.mul_comm (2 ^ k)] at h
      exact Nat.le_of_mul_le_mul_right h (Nat.two_pow_pos k)
    have ht : 2 ^ t ≤ 2 :=
      Nat.le_of_mul_le_mul_right (hbound.trans hn) (show 0 < hiddenBit by decide)
    -- only twice the hidden bit is that large
    have hdvd : 2 ^ t ∣ n := by
      rcases Nat.lt_or_ge t 1 with hzero | hone
      · rw [show t = 0 by omega]
        exact Nat.one_dvd n
      · have htwo : 2 ^ t = 2 :=
          Nat.le_antisymm ht (Nat.pow_le_pow_right (show 0 < 2 by decide) hone)
        rw [htwo] at hbound ⊢
        exact ⟨hiddenBit, Nat.le_antisymm hn hbound⟩
    rw [Nat.pow_add, Nat.mul_comm]
    exact Nat.mul_dvd_mul hdvd (Nat.dvd_refl _)

theorem unitsPerOne_pos : 0 < unitsPerOne := by
  rw [unitsPerOne_eq]
  generalize 1074 = n
  exact Nat.two_pow_pos n

/-- An integer is rounded like the number of units that it is. -/
theorem ofInt_eq_ofScaled (i : Int) : ofInt i = ofScaled false (i * unitsPerOne) := by
  have hpos : (0 : Int) < unitsPerOne := Int.natCast_pos.2 unitsPerOne_pos
  have hsign : (if i * (unitsPerOne : Int) = 0 then false
      else decide (i * (unitsPerOne : Int) < 0)) = decide (i < 0) := by
    rcases Int.lt_trichotomy i 0 with hneg | rfl | hi
    · have hlt := Int.mul_neg_of_neg_of_pos hneg hpos
      rw [if_neg hlt.ne, decide_eq_true hlt, decide_eq_true hneg]
    · rw [Int.zero_mul, if_pos rfl]
      rfl
    · have hgt := Int.mul_pos hi hpos
      rw [if_neg hgt.ne', decide_eq_false hgt.not_gt, decide_eq_false hi.not_gt]
  unfold ofInt ofScaled
  rw [hsign, Int.natAbs_mul, Int.natAbs_natCast]

/-- Integers of at most 53 bits are doubles. -/
theorem representable_of_natAbs_le {i : Int} (h : i.natAbs ≤ 2 ^ 53) :
    Representable (i * unitsPerOne) := by
  have habs : (i * (unitsPerOne : Int)).natAbs = i.natAbs * unitsPerOne := by
    rw [Int.natAbs_mul, Int.natAbs_natCast]
  have hfinite : nearestMagnitude (i.natAbs * unitsPerOne) 1 < infiniteMagnitude := by
    rw [← magnitude_ofInt]
    exact Nat.lt_of_le_of_lt (magnitude_ofInt_le (h.trans (by decide))) (by decide)
  have hdvd : 2 ^ roundingShift (i.natAbs * unitsPerOne) 1 ∣ i.natAbs * unitsPerOne := by
    by_cases hshift : roundingShift (i.natAbs * unitsPerOne) 1 = 0
    · rw [hshift]
      exact Nat.one_dvd _
    · have hle := le_of_roundingShift hshift
      rw [Nat.one_mul] at hle
      revert hle
      rw [unitsPerOne_eq]
      exact pow_dvd_of_le h
  refine ⟨ofScaled false (i * unitsPerOne), ?_, scaled_ofScaled_of_units ?_⟩
  · rw [isFinite, magnitude_ofScaled, habs]
    exact decide_eq_true hfinite
  · rw [habs]
    exact units_nearestMagnitude_of_dvd hdvd hfinite

theorem exactSum_map_ofInt {is : List Int} (h : ∀ i ∈ is, i.natAbs ≤ 2 ^ 53) :
    exactSum (is.map ofInt) = is.sum * unitsPerOne := by
  unfold exactSum
  induction is with
  | nil => simp
  | cons i is ih =>
    obtain ⟨hi, his⟩ := List.forall_mem_cons.1 h
    have hscaled : (ofInt i).scaled = i * unitsPerOne := by
      rw [ofInt_eq_ofScaled, (representable_of_natAbs_le hi).scaled_ofScaled]
    rw [List.map_cons, List.map_cons, List.sum_cons, List.sum_cons, hscaled, ih his, Int.add_mul]

theorem natAbs_sum_le (is : List Int) : is.sum.natAbs ≤ (is.map Int.natAbs).sum := by
  induction is with
  | nil => simp
  | cons i is ih =>
    rw [List.map_cons, List.sum_cons, List.sum_cons]
    exact (Int.natAbs_add_le i is.sum).trans (Nat.add_le_add_left ih _)

/-- Integers that together do not go beyond `2 ^ 53` are added up exactly. -/
theorem exactSums_ofInt {is : List Int} (h : (is.map Int.natAbs).sum ≤ 2 ^ 53) :
    ExactSums (is.map ofInt) where
  finite x hx := by
    obtain ⟨i, hi, rfl⟩ := List.mem_map.1 hx
    have hle : i.natAbs ≤ 2 ^ 53 :=
      (List.single_le_sum (fun _ _ => Nat.zero_le _) _ (List.mem_map_of_mem hi)).trans h
    exact (moderate_ofInt (hle.trans (by decide))).isFinite
  representable part hpart := by
    obtain ⟨js, ⟨before, after, rfl⟩, rfl⟩ := List.infix_map_iff.1 hpart
    have hjs : (js.map Int.natAbs).sum ≤ 2 ^ 53 := by
      simp only [List.map_append, List.sum_append] at h
      omega
    have hmem : ∀ j ∈ js, j.natAbs ≤ 2 ^ 53 := fun j hj =>
      (List.single_le_sum (fun _ _ => Nat.zero_le _) _ (List.mem_map_of_mem hj)).trans hjs
    rw [exactSum_map_ofInt hmem]
    exact representable_of_natAbs_le ((natAbs_sum_le js).trans hjs)

end DataCube.Binary64
