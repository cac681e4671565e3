import Mathlib.Algebra.Group.Nat.Defs
import Mathlib.Order.MinMax
import Mathlib.Order.Nat
import DataCube.Number.Binary64

/-!
# Rounding to doubles

Rounding keeps the order of what is rounded, and is exact on the grid that it rounds to.  Doubles
are read off their magnitude bits: `s * hiddenBit + r` stands for `r * 2 ^ s` units, where `r` is at
most twice the hidden bit and at least the hidden bit unless `s` is zero.

* `roundDiv_mono`, `nearestMagnitude_mono`: rounding is monotone.
* `units`: the value of magnitude bits.  `units_grid` evaluates it and `units_mono` says that more
  bits stand for more.
* `nearestMagnitude_eq`: the place on the grid that a number is rounded to.
* `key_ofInt_mono`: larger integers are larger doubles.
-/

namespace DataCube.Binary64

/-! ## The nearest natural number -/

theorem roundDiv_cases (num den : Nat) :
    roundDiv num den = num / den ∧ 2 * (num % den) ≤ den ∨
      roundDiv num den = num / den + 1 ∧ den ≤ 2 * (num % den) := by
  unfold roundDiv
  split
  · exact Or.inl ⟨rfl, by omega⟩
  · split
    · exact Or.inr ⟨rfl, by omega⟩
    · rcases Nat.mod_two_eq_zero_or_one (num / den) with h | h
      · exact Or.inl ⟨by omega, by omega⟩
      · exact Or.inr ⟨by omega, by omega⟩

theorem div_le_roundDiv (num den : Nat) : num / den ≤ roundDiv num den := by
  rcases roundDiv_cases num den with ⟨h, -⟩ | ⟨h, -⟩
  · omega
  · omega

theorem roundDiv_mono {a b den : Nat} (h : a ≤ b) : roundDiv a den ≤ roundDiv b den := by
  have hdiv : a / den ≤ b / den := Nat.div_le_div_right h
  rcases Nat.lt_or_eq_of_le hdiv with hlt | heq
  · calc roundDiv a den ≤ a / den + 1 := by rcases roundDiv_cases a den with h | h <;> omega
      _ ≤ b / den := hlt
      _ ≤ roundDiv b den := div_le_roundDiv b den
  · -- with equal whole parts the remainders are ordered
    have ha := Nat.div_add_mod a den
    have hb := Nat.div_add_mod b den
    rw [heq] at ha
    have hmod : a % den ≤ b % den := by omega
    unfold roundDiv
    rw [heq]
    split_ifs <;> omega

theorem roundDiv_mul {den : Nat} (hden : 0 < den) (k : Nat) : roundDiv (k * den) den = k := by
  unfold roundDiv
  rw [Nat.mul_mod_left, Nat.mul_div_cancel k hden, if_pos (by omega)]

theorem roundDiv_of_dvd {num den : Nat} (h : den ∣ num) : roundDiv num den = num / den := by
  rcases Nat.eq_zero_or_pos den with rfl | hden
  · rw [Nat.zero_dvd.1 h]
    rfl
  · obtain ⟨k, rfl⟩ := h
    rw [Nat.mul_comm, roundDiv_mul hden, Nat.mul_div_cancel k hden]

theorem le_roundDiv {num den k : Nat} (hden : 0 < den) (h : k * den ≤ num) :
    k ≤ roundDiv num den :=
  (roundDiv_mul hden k).symm.le.trans (roundDiv_mono h)

theorem roundDiv_le {num den k : Nat} (hden : 0 < den) (h : num ≤ k * den) :
    roundDiv num den ≤ k :=
  (roundDiv_mono h).trans (roundDiv_mul hden k).le

/-! ## The place on the grid -/

/-- How often the unit is doubled before a number is rounded to it. -/
def roundingShift (num den : Nat) : Nat := (num / den).log2 - 52

/-- The multiple of the doubled unit that a number is rounded to. -/
def roundedSignificand (num den : Nat) : Nat := roundDiv num (den * 2 ^ roundingShift num den)

theorem nearestMagnitude_eq (num den : Nat) :
    nearestMagnitude num den =
      min (roundingShift num den * hiddenBit + roundedSignificand num den) infiniteMagnitude := by
  unfold roundedSignificand
  rw [← Nat.shiftLeft_eq]
  rfl

variable {num den : Nat}

theorem lt_of_roundingShift (hden : 0 < den) :
    num < den * 2 ^ roundingShift num den * (2 * hiddenBit) := by
  have hlog : num / den < 2 ^ (roundingShift num den + 53) :=
    Nat.lt_of_lt_of_le Nat.lt_log2_self
      (Nat.pow_le_pow_right (by decide) (by unfold roundingShift; omega))
  have h : num < 2 ^ (roundingShift num den + 53) * den := (Nat.div_lt_iff_lt_mul hden).1 hlog
  calc num < 2 ^ (roundingShift num den + 53) * den := h
    _ = den * 2 ^ roundingShift num den * (2 * hiddenBit) := by
      rw [Nat.pow_add, show (2 : Nat) ^ 53 = 2 * hiddenBit from rfl, Nat.mul_right_comm,
        Nat.mul_comm (2 ^ _) den]

theorem le_of_roundingShift (h : roundingShift num den ≠ 0) :
    den * 2 ^ roundingShift num den * hiddenBit ≤ num := by
  have hlog : (num / den).log2 = roundingShift num den + 52 := by
    unfold roundingShift at h ⊢
    omega
  have hne : num / den ≠ 0 := by
    intro hzero
    rw [hzero, Nat.log2_zero] at hlog
    omega
  have hle : 2 ^ (roundingShift num den + 52) ≤ num / den := hlog ▸ Nat.log2_self_le hne
  calc den * 2 ^ roundingShift num den * hiddenBit
      = den * 2 ^ (roundingShift num den + 52) := by
        rw [Nat.pow_add, show (2 : Nat) ^ 52 = hiddenBit from rfl, Nat.mul_assoc]
    _ ≤ den * (num / den) := Nat.mul_le_mul_left den hle
    _ ≤ num := Nat.mul_div_le num den

theorem roundedSignificand_le (hden : 0 < den) : roundedSignificand num den ≤ 2 * hiddenBit := by
  refine roundDiv_le (Nat.mul_pos hden (Nat.two_pow_pos _)) ?_
  rw [Nat.mul_comm]
  exact (lt_of_roundingShift hden).le

theorem le_roundedSignificand (hden : 0 < den) (h : roundingShift num den ≠ 0) :
    hiddenBit ≤ roundedSignificand num den := by
  refine le_roundDiv (Nat.mul_pos hden (Nat.two_pow_pos _)) ?_
  rw [Nat.mul_comm]
  exact le_of_roundingShift h

theorem roundingShift_mono {a b : Nat} (h : a ≤ b) : roundingShift a den ≤ roundingShift b den := by
  have hdiv : a / den ≤ b / den := Nat.div_le_div_right h
  have hlog : (a / den).log2 ≤ (b / den).log2 := by
    by_cases hzero : a / den = 0
    · rw [hzero, Nat.log2_zero]
      exact Nat.zero_le _
    · have hne : b / den ≠ 0 := fun h => hzero (Nat.le_zero.1 (h ▸ hdiv))
      exact (Nat.le_log2 hne).2 ((Nat.log2_self_le hzero).trans hdiv)
  unfold roundingShift
  omega

/-- Rounding is monotone. -/
theorem nearestMagnitude_mono {a b : Nat} (hden : 0 < den) (h : a ≤ b) :
    nearestMagnitude a den ≤ nearestMagnitude b den := by
  rw [nearestMagnitude_eq, nearestMagnitude_eq]
  refine min_le_min ?_ le_rfl
  have hshift : roundingShift a den ≤ roundingShift b den := roundingShift_mono h
  rcases Nat.lt_or_eq_of_le hshift with hlt | heq
  · calc roundingShift a den * hiddenBit + roundedSignificand a den
        ≤ (roundingShift a den + 1) * hiddenBit + hiddenBit := by
          have hle : roundedSignificand a den ≤ 2 * hiddenBit := roundedSignificand_le hden
          rw [Nat.add_one_mul]
          omega
      _ ≤ roundingShift b den * hiddenBit + hiddenBit :=
          Nat.add_le_add_right (Nat.mul_le_mul_right hiddenBit hlt) hiddenBit
      _ ≤ roundingShift b den * hiddenBit + roundedSignificand b den :=
          Nat.add_le_add_left (le_roundedSignificand hden (by omega)) _
  · unfold roundedSignificand
    rw [heq]
    exact Nat.add_le_add_left (roundDiv_mono h) _

theorem nearestMagnitude_le (num den : Nat) : nearestMagnitude num den ≤ infiniteMagnitude := by
  rw [nearestMagnitude_eq]
  exact min_le_right _ _

theorem nearestMagnitude_lt (num den : Nat) : nearestMagnitude num den < signBit :=
  Nat.lt_of_le_of_lt (nearestMagnitude_le num den) (by decide)

/-! ## The value of magnitude bits -/

/-- The value of magnitude bits, in units. -/
def units (magnitude : Nat) : Nat :=
  (if magnitude < hiddenBit then magnitude else magnitude % hiddenBit + hiddenBit) *
    2 ^ (magnitude / hiddenBit - 1)

theorem scaled_eq (x : Binary64) :
    x.scaled = if x.isNegative then -(units x.magnitude : Int) else units x.magnitude := by
  unfold scaled significand shift units
  rw [Nat.shiftLeft_eq]

/-- The value of a place on the grid. -/
theorem units_grid {s r : Nat} (hr : r ≤ 2 * hiddenBit) (hs : s ≠ 0 → hiddenBit ≤ r) :
    units (s * hiddenBit + r) = r * 2 ^ s := by
  unfold units
  by_cases hsub : r < hiddenBit
  · obtain rfl : s = 0 := by
      by_contra h
      have := hs h
      omega
    rw [Nat.zero_mul, Nat.zero_add, if_pos hsub, Nat.div_eq_of_lt hsub]
  · have hpos : 0 < hiddenBit := by decide
    rw [if_neg (by omega)]
    rcases Nat.lt_or_eq_of_le hr with hlt | rfl
    · have hsplit : s * hiddenBit + r = (r - hiddenBit) + hiddenBit * (s + 1) := by
        rw [Nat.mul_add_one, Nat.mul_comm hiddenBit s]
        omega
      rw [hsplit, Nat.add_mul_mod_self_left, Nat.add_mul_div_left _ _ hpos,
        Nat.mod_eq_of_lt (by omega), Nat.div_eq_of_lt (by omega), Nat.sub_add_cancel (by omega),
        Nat.zero_add, Nat.add_sub_cancel]
    · -- the carry out of the significand
      rw [← Nat.add_mul, Nat.mul_mod_left, Nat.mul_div_cancel _ hpos, Nat.zero_add,
        show s + 2 - 1 = s + 1 by omega, Nat.pow_succ, Nat.mul_comm 2 hiddenBit, Nat.mul_assoc,
        Nat.mul_comm 2 (2 ^ s)]

/-- All magnitude bits are on the grid. -/
theorem exists_grid (m : Nat) :
    ∃ s r, m = s * hiddenBit + r ∧ r < 2 * hiddenBit ∧ (s ≠ 0 → hiddenBit ≤ r) := by
  have hpos : 0 < hiddenBit := by decide
  have hdiv := Nat.div_add_mod m hiddenBit
  have hmod := Nat.mod_lt m hpos
  rcases Nat.eq_zero_or_pos (m / hiddenBit) with hzero | hpos'
  · exact ⟨0, m, by omega, by rw [hzero] at hdiv; omega, fun h => absurd rfl h⟩
  · refine ⟨m / hiddenBit - 1, m % hiddenBit + hiddenBit, ?_, by omega, fun _ => by omega⟩
    calc m = hiddenBit * (m / hiddenBit) + m % hiddenBit := hdiv.symm
      _ = hiddenBit * (m / hiddenBit - 1 + 1) + m % hiddenBit := by
        rw [Nat.sub_add_cancel hpos']
      _ = (m / hiddenBit - 1) * hiddenBit + (m % hiddenBit + hiddenBit) := by
        rw [Nat.mul_add_one, Nat.mul_comm hiddenBit]
        omega

/-- More bits stand for more. -/
theorem units_mono {m m' : Nat} (h : m ≤ m') : units m ≤ units m' := by
  obtain ⟨s, r, rfl, hr, hs⟩ := exists_grid m
  obtain ⟨s', r', rfl, hr', hs'⟩ := exists_grid m'
  rw [units_grid hr.le hs, units_grid hr'.le hs']
  rcases Nat.lt_trichotomy s s' with hlt | rfl | hgt
  · calc r * 2 ^ s ≤ 2 * hiddenBit * 2 ^ s := Nat.mul_le_mul_right _ hr.le
      _ = hiddenBit * 2 ^ (s + 1) := by
        rw [Nat.pow_succ, Nat.mul_comm 2 hiddenBit, Nat.mul_assoc, Nat.mul_comm 2 (2 ^ s)]
      _ ≤ hiddenBit * 2 ^ s' := Nat.mul_le_mul_left _ (Nat.pow_le_pow_right (by decide) hlt)
      _ ≤ r' * 2 ^ s' := Nat.mul_le_mul_right _ (hs' (by omega))
  · exact Nat.mul_le_mul_right _ (by omega)
  · -- a larger exponent stands for more bits
    have hgrid : (s' + 1) * hiddenBit + hiddenBit ≤ s * hiddenBit + r :=
      Nat.add_le_add (Nat.mul_le_mul_right hiddenBit hgt) (hs (by omega))
    rw [Nat.add_mul] at hgrid
    omega

/-- The value of a rounded number that is not beyond the largest double. -/
theorem units_nearestMagnitude (hden : 0 < den) (h : nearestMagnitude num den < infiniteMagnitude) :
    units (nearestMagnitude num den) =
      roundedSignificand num den * 2 ^ roundingShift num den := by
  rw [nearestMagnitude_eq] at h ⊢
  rw [min_eq_left (by omega)]
  exact units_grid (roundedSignificand_le hden) (le_roundedSignificand hden)

/-! ## Integers -/

theorem magnitude_ofInt (i : Int) :
    (ofInt i).magnitude = nearestMagnitude (i.natAbs * unitsPerOne) 1 :=
  magnitude_ofParts _ (nearestMagnitude_lt _ _)

/-- No integer is rounded to a NaN. -/
theorem isNaN_ofInt (i : Int) : (ofInt i).isNaN = false := by
  unfold isNaN
  rw [magnitude_ofInt, decide_eq_false_iff_not]
  exact Nat.not_lt.2 (nearestMagnitude_le _ _)

/-- Rounding of magnitudes that keeps their order keeps the order of signed numbers. -/
theorem key_ofParts_mono {f : Nat → Nat} (hf : ∀ a b, a ≤ b → f a ≤ f b) (hlt : ∀ n, f n < signBit)
    {i j : Int} (h : i ≤ j) :
    (ofParts (i < 0) (f i.natAbs)).key ≤ (ofParts (j < 0) (f j.natAbs)).key := by
  unfold key
  rw [isNegative_ofParts _ (hlt _), isNegative_ofParts _ (hlt _), magnitude_ofParts _ (hlt _),
    magnitude_ofParts _ (hlt _)]
  by_cases hi : i < 0
  · by_cases hj : j < 0
    · have hmono := hf j.natAbs i.natAbs (by omega)
      rw [decide_eq_true hi, decide_eq_true hj, if_pos rfl, if_pos rfl]
      omega
    · rw [decide_eq_true hi, decide_eq_false hj, if_pos rfl, if_neg (by decide)]
      omega
  · have hmono := hf i.natAbs j.natAbs (by omega)
    have hj : ¬ j < 0 := by omega
    rw [decide_eq_false hi, decide_eq_false hj, if_neg (by decide), if_neg (by decide)]
    omega

/-- Larger integers are larger doubles. -/
theorem key_ofInt_mono {i j : Int} (h : i ≤ j) : (ofInt i).key ≤ (ofInt j).key :=
  key_ofParts_mono (f := fun n => nearestMagnitude (n * unitsPerOne) 1)
    (fun _ _ hab => nearestMagnitude_mono Nat.one_pos (Nat.mul_le_mul_right unitsPerOne hab))
    (fun _ => nearestMagnitude_lt _ _) h

end DataCube.Binary64
