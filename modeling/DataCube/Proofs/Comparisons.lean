import Mathlib.Data.Int.ConditionallyCompleteOrder
import Mathlib.Order.ConditionallyCompleteLattice.Basic
import DataCube.Operator
import DataCube.Proofs.ExactSums
import DataCube.Proofs.Outcome
import DataCube.Proofs.ScalarOrder

/-!
# Comparing numbers

The comparison operators compare integers and numbers as doubles, and an integer is rounded before.
Rounding keeps the order, so no answer is the wrong way round: at worst two operands with different
values are taken for equal, and then one of them is an integer beyond the integers of 53 bits.  The
value order rounds too where it meets an integer and a number, and puts the integer first on a tie.

* `Binary64.exact`, `Scalar.exactValue?`: values, the infinities included.  `Binary64.nearest`
  rounds a value, `key_nearest_exact` and `key_nearest_mono` say that this is exact on doubles and
  monotone.
* `BinaryOp.Relates`: what a comparison says about two values.
* `Scalar.Confused`: two operands of different values that are rounded to one double.
* `comparison_answers`: the answers of all six comparisons.
* `mixed_order`: the place of an integer among the numbers in the value order.
-/

namespace DataCube

/-- A number of units, or one of the infinities. -/
abbrev Extended := WithBot (WithTop Int)

namespace Binary64

/-! ## Values -/

/-- The value of a double that is not NaN, in units. -/
def exact (x : Binary64) : Extended :=
  if x.isFinite then (x.scaled : WithTop Int) else if x.isNegative then ⊥ else (⊤ : WithTop Int)

/-- The double nearest to a value. -/
def nearest : Extended → Binary64
  | none => ofParts true infiniteMagnitude
  | some none => ofParts false infiniteMagnitude
  | some (some u) => ofScaled false u

theorem ofScaled_false (u : Int) :
    ofScaled false u = ofParts (u < 0) (nearestMagnitude u.natAbs 1) := by
  unfold ofScaled
  by_cases hzero : u = 0
  · rw [if_pos hzero, hzero]
    rfl
  · rw [if_neg hzero]

theorem key_ofScaled_mono {u v : Int} (h : u ≤ v) :
    (ofScaled false u).key ≤ (ofScaled false v).key := by
  rw [ofScaled_false, ofScaled_false]
  exact key_ofParts_mono (f := fun n => nearestMagnitude n 1)
    (fun _ _ => nearestMagnitude_mono Nat.one_pos) (fun _ => nearestMagnitude_lt _ _) h

theorem magnitude_nearest_le (p : Extended) : (nearest p).magnitude ≤ infiniteMagnitude := by
  match p with
  | none | some none => decide
  | some (some u) =>
    rw [nearest, magnitude_ofScaled]
    exact nearestMagnitude_le _ _

theorem key_nearest_le (p : Extended) : (nearest p).key ≤ infiniteMagnitude := by
  have h := magnitude_nearest_le p
  unfold key
  split <;> omega

theorem le_key_nearest (p : Extended) : -(infiniteMagnitude : Int) ≤ (nearest p).key := by
  have h := magnitude_nearest_le p
  unfold key
  split <;> omega

/-- Larger values are larger doubles. -/
theorem key_nearest_mono {p q : Extended} (h : p ≤ q) : (nearest p).key ≤ (nearest q).key := by
  match p, q with
  | none, q => exact le_key_nearest q
  | p, some none => exact key_nearest_le p
  | some (some u), some (some v) =>
    exact key_ofScaled_mono (WithTop.coe_le_coe.1 (WithBot.coe_le_coe.1 h))
  | some (some u), none => exact absurd h (WithBot.not_coe_le_bot _)
  | some none, none => exact absurd h (WithBot.not_coe_le_bot _)
  | some none, some (some v) => exact absurd (WithBot.coe_le_coe.1 h) (WithTop.not_top_le_coe v)

/-- The value of a double is rounded to this double, or to the other zero. -/
theorem key_nearest_exact {x : Binary64} (h : x.isNaN = false) : (nearest x.exact).key = x.key := by
  unfold exact
  by_cases hfinite : x.isFinite = true
  · rw [if_pos hfinite]
    have hlt : x.magnitude < infiniteMagnitude := of_decide_eq_true hfinite
    have hmagnitude : nearestMagnitude x.scaled.natAbs 1 = x.magnitude := by
      rw [natAbs_scaled, nearestMagnitude_units hlt]
    show (ofScaled false x.scaled).key = x.key
    unfold key
    rw [magnitude_ofScaled, isNegative_ofScaled, hmagnitude]
    by_cases hzero : x.scaled = 0
    · -- a zero of either sign
      rw [hzero] at hmagnitude
      rw [if_pos hzero, ← hmagnitude]
      cases x.isNegative <;> rfl
    · have hsign : decide (x.scaled < 0) = x.isNegative := by
        rw [scaled_eq] at hzero ⊢
        cases hnegative : x.isNegative with
        | true =>
          rw [hnegative, if_pos rfl] at hzero
          rw [if_pos rfl]
          exact decide_eq_true (by omega)
        | false =>
          rw [if_neg Bool.false_ne_true]
          exact decide_eq_false (by omega)
      rw [if_neg hzero, hsign]
  · rw [if_neg hfinite]
    have hmagnitude : x.magnitude = infiniteMagnitude := by
      have hle : ¬ x.magnitude < infiniteMagnitude := fun hlt => hfinite (decide_eq_true hlt)
      have hge : ¬ infiniteMagnitude < x.magnitude := of_decide_eq_false h
      omega
    unfold key
    rw [hmagnitude]
    cases x.isNegative with
    | true => rfl
    | false => rfl

/-- Doubles of one place in the order have one value. -/
theorem exact_eq_of_key_eq {x y : Binary64} (h : x.key = y.key) : x.exact = y.exact := by
  rcases key_eq_iff.1 h with rfl | ⟨hx, hy⟩
  · rfl
  · have hzero {z : Binary64} (hz : z.magnitude = 0) : z.exact = ((0 : Int) : WithTop Int) := by
      have hscaled : z.scaled = 0 := by
        rw [scaled_eq, hz]
        split <;> rfl
      rw [exact, isFinite, hz, hscaled]
      rfl
    rw [hzero hx, hzero hy]

/-- The order of doubles is the order of their values. -/
theorem key_lt_iff {x y : Binary64} (hx : x.isNaN = false) (hy : y.isNaN = false) :
    x.key < y.key ↔ x.exact < y.exact := by
  rw [← not_le, ← not_le]
  refine not_congr ⟨fun h => ?_, fun h => ?_⟩
  · rcases h.lt_or_eq with hlt | heq
    · by_contra hgt
      have hle := key_nearest_mono (not_le.1 hgt).le
      rw [key_nearest_exact hx, key_nearest_exact hy] at hle
      omega
    · exact (exact_eq_of_key_eq heq).le
  · have hle := key_nearest_mono h
    rwa [key_nearest_exact hx, key_nearest_exact hy] at hle

end Binary64

/-! ## Scalars -/

namespace Scalar

/-- The value of an integer, or of a number that is not NaN. -/
def exactValue? : Scalar → Option Extended
  | integer i => some ((i.toInt * Binary64.unitsPerOne : Int) : WithTop Int)
  | number x => if x.isNaN then none else some x.exact
  | _ => none

theorem exactValue?_number {x : Binary64} (h : x.isNaN = false) :
    (number x).exactValue? = some x.exact := by
  rw [exactValue?, if_neg (Bool.eq_false_iff.1 h)]

/-- The double that a scalar with a value is compared as. -/
structure RoundsTo (p : Extended) (x : Binary64) : Prop where
  isNaN : x.isNaN = false
  key : x.key = (Binary64.nearest p).key

theorem exists_roundsTo {a : Scalar} {p : Extended} (h : a.exactValue? = some p) :
    ∃ x, a.number? = some x ∧ RoundsTo p x := by
  cases a with
  | integer i =>
    cases h
    refine ⟨_, rfl, Binary64.isNaN_ofInt _, ?_⟩
    rw [Binary64.ofInt_eq_ofScaled]
    rfl
  | number x =>
    simp only [exactValue?] at h
    split at h
    · nomatch h
    · rename_i hnan
      cases h
      have hnan' : x.isNaN = false := Bool.eq_false_iff.2 hnan
      exact ⟨x, rfl, hnan', (Binary64.key_nearest_exact hnan').symm⟩
  | string s => nomatch h
  | boolean b => nomatch h
  | null d => nomatch h

/-- Rounding keeps the order of values. -/
theorem RoundsTo.lt_of_lt {p q : Extended} {x y : Binary64} (hx : RoundsTo p x) (hy : RoundsTo q y)
    (h : x.exact < y.exact) : p < q := by
  by_contra hle
  have hkey := Binary64.key_nearest_mono (not_lt.1 hle)
  rw [← hx.key, ← hy.key] at hkey
  have hlt := (Binary64.key_lt_iff hx.isNaN hy.isNaN).2 h
  omega

/-- The order of the doubles is the order of the values, unless different ones were rounded to the
same. -/
theorem RoundsTo.compare_eq {p q : Extended} {x y : Binary64} (hx : RoundsTo p x)
    (hy : RoundsTo q y) (hsame : x.exact = y.exact → p = q) :
    compare x.key y.key = cmp p q := by
  rcases Int.lt_trichotomy x.key y.key with hlt | heq | hgt
  · have hpq := hx.lt_of_lt hy ((Binary64.key_lt_iff hx.isNaN hy.isNaN).1 hlt)
    rw [Int.compare_eq_lt.2 hlt, (cmp_eq_lt_iff p q).2 hpq]
  · rw [Int.compare_eq_eq.2 heq, hsame (Binary64.exact_eq_of_key_eq heq), cmp_self_eq_eq]
  · have hqp := hy.lt_of_lt hx ((Binary64.key_lt_iff hy.isNaN hx.isNaN).1 hgt)
    rw [Int.compare_eq_gt.2 hgt, (cmp_eq_gt_iff p q).2 hqp]

/-- Only an integer beyond those of 53 bits has to be rounded. -/
theorem exact_eq_or_large {a : Scalar} {p : Extended} {x : Binary64} (ha : a.exactValue? = some p)
    (hx : a.number? = some x) :
    x.exact = p ∨ ∃ i : Int64, a = .integer i ∧ 2 ^ 53 < i.toInt.natAbs := by
  cases a with
  | integer i =>
    cases ha
    cases hx
    by_cases hsmall : i.toInt.natAbs ≤ 2 ^ 53
    · have hrepresentable := Binary64.representable_of_natAbs_le hsmall
      refine Or.inl ?_
      rw [Binary64.exact, Binary64.ofInt_eq_ofScaled, hrepresentable.isFinite_ofScaled, if_pos rfl,
        hrepresentable.scaled_ofScaled]
    · exact Or.inr ⟨i, rfl, by omega⟩
  | number y =>
    cases hx
    simp only [exactValue?] at ha
    split at ha
    · nomatch ha
    · exact Or.inl (Option.some.inj ha)
  | string s => nomatch ha
  | boolean b => nomatch ha
  | null d => nomatch ha

/-- Two scalars of different values that are one value once they are rounded to doubles. -/
def Confused (a b : Scalar) : Prop :=
  a.exactValue? ≠ b.exactValue? ∧ ∃ x y, a.number? = some x ∧ b.number? = some y ∧ x.exact = y.exact

/-- One of them is an integer beyond those of 53 bits. -/
theorem Confused.exists_large {a b : Scalar} (h : a.Confused b) {p q : Extended}
    (ha : a.exactValue? = some p) (hb : b.exactValue? = some q) :
    ∃ i : Int64, (a = .integer i ∨ b = .integer i) ∧ 2 ^ 53 < i.toInt.natAbs := by
  obtain ⟨hne, x, y, hx, hy, hexact⟩ := h
  rcases exact_eq_or_large ha hx with hp | ⟨i, rfl, hi⟩
  · rcases exact_eq_or_large hb hy with hq | ⟨i, rfl, hi⟩
    · rw [ha, hb, ← hp, ← hq, hexact] at hne
      exact absurd rfl hne
    · exact ⟨i, Or.inr rfl, hi⟩
  · exact ⟨i, Or.inl rfl, hi⟩

end Scalar

/-! ## Comparisons -/

namespace BinaryOp

/-- What a comparison says about two values. -/
def Relates (p q : Extended) : BinaryOp → Prop
  | eq => p = q
  | ne => p ≠ q
  | lt => p < q
  | le => p ≤ q
  | gt => q < p
  | ge => q ≤ p
  | _ => False

/-- An order of two values decides all comparisons of them. -/
theorem holds_iff {op : BinaryOp} (hop : op.family = .comparison) {p q : Extended} :
    op.holds (some (cmp p q)) = true ↔ op.Relates p q := by
  rcases lt_trichotomy p q with h | rfl | h
  · rw [cmp_eq_lt_iff _ _ |>.2 h]
    cases op <;> simp_all [holds, Relates, family, h.ne, h.le, h.not_gt, h.not_ge]
  · rw [cmp_self_eq_eq]
    cases op <;> simp_all [holds, Relates, family]
  · rw [cmp_eq_gt_iff _ _ |>.2 h]
    cases op <;> simp_all [holds, Relates, family, h.ne', h.le, h.not_gt, h.not_ge]

/-- Two numbers are compared as doubles. -/
theorem apply_of_number? {op : BinaryOp} (hop : op.family = .comparison) {a b : Scalar}
    {x y : Binary64} (hx : a.number? = some x) (hy : b.number? = some y) :
    op.apply a b = .ok (.boolean (op.holds (x.compareValues? y))) := by
  have hcompare : op.compare a b = op.holds (x.compareValues? y) := by
    rw [compare, hx, hy]
  have hdomain : op.resultDomain? a.domain b.domain = .ok .boolean := by
    rw [resultDomain?, hop]
    cases a <;> cases hx <;> cases b <;> cases hy <;> rfl
  have hnull : (a.isNull || b.isNull) = false := by
    cases a <;> cases hx <;> cases b <;> cases hy <;> rfl
  unfold apply
  rw [hdomain, ok_bind, hnull, ← hcompare]
  cases op <;> first | rfl | nomatch hop

end BinaryOp

/-- Comparisons of integers and numbers, in any mix and with infinities, always have an answer.  It
is right for the exact values of the operands, unless their values differ and are rounded to one.
Then they are answered as for equal operands, and one of the operands is an integer of more than 53
bits. -/
theorem comparison_answers {op : BinaryOp} (hop : op.family = .comparison) {a b : Scalar}
    {p q : Extended} (ha : a.exactValue? = some p) (hb : b.exactValue? = some q) :
    ∃ answer, op.apply a b = .ok (.boolean answer) ∧
      (¬ a.Confused b → (answer = true ↔ op.Relates p q)) ∧
      (a.Confused b → (answer = true ↔ op.Relates p p) ∧
        ∃ i : Int64, (a = .integer i ∨ b = .integer i) ∧ 2 ^ 53 < i.toInt.natAbs) := by
  obtain ⟨x, hx, hax⟩ := Scalar.exists_roundsTo ha
  obtain ⟨y, hy, hby⟩ := Scalar.exists_roundsTo hb
  have horder : x.compareValues? y = some (compare x.key y.key) := by
    rw [Binary64.compareValues?, hax.isNaN, hby.isNaN]
    rfl
  refine ⟨_, BinaryOp.apply_of_number? hop hx hy, fun hnot => ?_, fun hconfused => ⟨?_, ?_⟩⟩
  · rw [horder, ← BinaryOp.holds_iff hop]
    have hsame : x.exact = y.exact → p = q := by
      intro hexact
      by_contra hne
      refine hnot ⟨fun h => hne ?_, x, y, hx, hy, hexact⟩
      rw [ha, hb] at h
      exact Option.some.inj h
    rw [hax.compare_eq hby hsame]
  · obtain ⟨-, x', y', hx', hy', hexact⟩ := hconfused
    cases hx.symm.trans hx'
    cases hy.symm.trans hy'
    have hkey : x.key = y.key := by
      rw [← Binary64.key_nearest_exact hax.isNaN, hexact, Binary64.key_nearest_exact hby.isNaN]
    rw [horder, Int.compare_eq_eq.2 hkey, ← cmp_self_eq_eq p]
    exact BinaryOp.holds_iff hop
  · exact hconfused.exists_large ha hb

/-- The first integer that is no double is rounded to the one before it. -/
theorem Binary64.ofInt_beyondDoubles : ofInt 9007199254740993 = ofInt 9007199254740992 := by
  decide +kernel

theorem confused_beyondDoubles :
    (Scalar.integer 9007199254740993).Confused (.integer 9007199254740992) := by
  refine ⟨by decide +kernel, _, _, rfl, rfl, ?_⟩
  exact congrArg Binary64.exact Binary64.ofInt_beyondDoubles

/-- They are taken for equal, and are not. -/
theorem comparison_answers_beyondDoubles :
    BinaryOp.eq.family = .comparison ∧ ∃ p q,
      (Scalar.integer 9007199254740993).exactValue? = some p ∧
        (Scalar.integer 9007199254740992).exactValue? = some q ∧ ¬ BinaryOp.eq.Relates p q ∧
          BinaryOp.eq.apply (.integer 9007199254740993) (.integer 9007199254740992) =
            .ok (.boolean true) := by
  have hop : BinaryOp.eq.family = .comparison := rfl
  obtain ⟨p, hp⟩ : ∃ p, (Scalar.integer 9007199254740993).exactValue? = some p := ⟨_, rfl⟩
  obtain ⟨q, hq⟩ : ∃ q, (Scalar.integer 9007199254740992).exactValue? = some q := ⟨_, rfl⟩
  obtain ⟨answer, hanswer, -, hconfused⟩ := comparison_answers hop hp hq
  have htrue : answer = true := (hconfused confused_beyondDoubles).1.2 rfl
  rw [htrue] at hanswer
  refine ⟨hop, p, q, hp, hq, fun hpq => confused_beyondDoubles.1 ?_, hanswer⟩
  rw [hp, hq]
  exact congrArg some hpq

/-! ## The value order -/

namespace Scalar

/-- An integer and a number are ordered as doubles, and the integer stands first on a tie. -/
theorem integer_order_number (i : Int64) {x : Binary64} (hx : x.isNaN = false) :
    (integer i).order (number x) =
      if x.exact < (Binary64.ofInt i.toInt).exact then .gt else .lt := by
  have hkey : x.valueKey = x.key := by
    unfold Binary64.valueKey
    rw [hx, if_neg Bool.false_ne_true]
  show ((Binary64.ofInt i.toInt).compareValues x).then .lt = _
  rw [Binary64.compareValues_eq, Binary64.valueKey_ofInt, hkey]
  simp only [← Binary64.key_lt_iff hx (Binary64.isNaN_ofInt _)]
  rcases Int.lt_trichotomy x.key (Binary64.ofInt i.toInt).key with hlt | heq | hgt
  · rw [if_pos hlt, Int.compare_eq_gt.2 hlt]
    rfl
  · rw [if_neg (by omega), Int.compare_eq_eq.2 heq.symm]
    rfl
  · rw [if_neg (by omega), Int.compare_eq_lt.2 hgt]
    rfl

/-- The other way round it is the same order. -/
theorem number_order_integer (x : Binary64) (i : Int64) :
    (number x).order (integer i) = ((integer i).order (number x)).swap := by
  show (x.compareValues (Binary64.ofInt i.toInt)).then .gt =
    (((Binary64.ofInt i.toInt).compareValues x).then .lt).swap
  rw [Binary64.compareValues_eq, Binary64.compareValues_eq, Ordering.swap_then,
    Int.compare_swap]
  rfl

end Scalar

/-- An integer stands before a number in the value order if its value is not greater, and behind it
if its value is greater, unless rounding makes the two values equal.  Then the integer stands first
as for equal values, and is one of more than 53 bits. -/
theorem mixed_order {i : Int64} {x : Binary64} {p q : Extended}
    (hi : (Scalar.integer i).exactValue? = some p) (hx : (Scalar.number x).exactValue? = some q) :
    (p ≤ q → (Scalar.integer i).order (.number x) = .lt) ∧
      (q < p → ((Scalar.integer i).order (.number x) = .gt ↔
        ¬ (Scalar.integer i).Confused (.number x))) ∧
      ((Scalar.integer i).Confused (.number x) →
        (Scalar.integer i).order (.number x) = .lt ∧ 2 ^ 53 < i.toInt.natAbs) ∧
      (Scalar.number x).order (.integer i) = ((Scalar.integer i).order (.number x)).swap := by
  obtain ⟨y, hy, hpy⟩ := Scalar.exists_roundsTo hi
  cases hy
  obtain ⟨x', hx', hqx⟩ := Scalar.exists_roundsTo hx
  cases hx'
  have horder := Scalar.integer_order_number i hqx.isNaN
  -- an integer is rounded to the number only if they are confused, or equal from the start
  have hconfused : (Scalar.integer i).Confused (.number x) ↔
      p ≠ q ∧ (Binary64.ofInt i.toInt).exact = x.exact := by
    unfold Scalar.Confused
    rw [hi, hx, Ne, Option.some_inj]
    exact and_congr_right fun _ => ⟨fun ⟨_, _, ha, hb, h⟩ => by cases ha; cases hb; exact h,
      fun h => ⟨_, _, rfl, rfl, h⟩⟩
  refine ⟨fun hle => ?_, fun hlt => ?_, fun h => ⟨?_, ?_⟩, Scalar.number_order_integer x i⟩
  · rw [horder, if_neg fun h => (hqx.lt_of_lt hpy h).not_ge hle]
  · rw [horder, hconfused]
    by_cases h : x.exact < (Binary64.ofInt i.toInt).exact
    · rw [if_pos h]
      exact ⟨fun _ hsame => h.ne' hsame.2, fun _ => rfl⟩
    · have hsame : (Binary64.ofInt i.toInt).exact = x.exact :=
        (not_lt.1 h).antisymm (not_lt.1 fun h => (hpy.lt_of_lt hqx h).not_gt hlt)
      rw [if_neg h]
      exact ⟨nofun, fun hnot => (hnot ⟨hlt.ne', hsame⟩).elim⟩
  · rw [horder, (hconfused.1 h).2, if_neg (lt_irrefl _)]
  · obtain ⟨j, hj | hj, hlarge⟩ := h.exists_large hi hx
    · cases hj
      exact hlarge
    · nomatch hj

theorem confused_mixed : (Scalar.integer 9007199254740993).Confused
    (.number (Binary64.ofInt 9007199254740992)) := by
  refine ⟨by decide +kernel, _, _, rfl, rfl, ?_⟩
  exact congrArg Binary64.exact Binary64.ofInt_beyondDoubles

/-- The greater one stands first. -/
theorem mixed_order_beyondDoubles : ∃ p q,
    (Scalar.integer 9007199254740993).exactValue? = some p ∧
      (Scalar.number (Binary64.ofInt 9007199254740992)).exactValue? = some q ∧ q < p ∧
        (Scalar.integer 9007199254740993).order (.number (Binary64.ofInt 9007199254740992)) =
          .lt := by
  obtain ⟨p, hp⟩ : ∃ p, (Scalar.integer 9007199254740993).exactValue? = some p := ⟨_, rfl⟩
  have hq := Scalar.exactValue?_number (Binary64.isNaN_ofInt 9007199254740992)
  obtain ⟨-, -, hconfused, -⟩ := mixed_order hp hq
  refine ⟨p, _, hp, hq, ?_, (hconfused confused_mixed).1⟩
  cases hp
  decide +kernel

end DataCube
