import DataCube.Reducer
import DataCube.Proofs.Correspondence
import DataCube.Proofs.Interchange.Scalars

/-!
# Reductions of scalars that nothing tells apart

A reduction only computes with the numbers it is given, or compares scalars, so it makes results
that are alike of scalars that are.  The median sorts doubles by their bits.  It puts a NaN at the
end that its sign points to, and the NaN of one sign next to each other in the order of their bits;
so if signs are kept, two lists that are alike are still alike place by place once they are sorted.

* `Binary64.settled`: the double that stands for all those that it is like, signs kept.
* `alike_medianOf`: medians are alike, if signs are kept.
* `Accumulator.State.Alike`: what a reduction keeps of scalars that are alike.
* `Reducer.Respects`: what a reducer needs; `Reducer.alike_finishWith`: its results are alike.
-/

namespace DataCube

variable {signs : Prop}

/-! ## Medians -/

namespace Binary64

/-- The NaN of a sign that stands for all of them. -/
def signedNaN (negative : Bool) : Binary64 := ofParts negative nan.magnitude

theorem magnitude_signedNaN (negative : Bool) :
    (signedNaN negative).magnitude = 0x7FF8000000000000 :=
  magnitude_ofParts negative (by decide)

theorem isNegative_signedNaN (negative : Bool) : (signedNaN negative).isNegative = negative :=
  isNegative_ofParts negative (by decide)

/-- The double that stands for all those like it. -/
def settled (x : Binary64) : Binary64 := if x.isNaN then signedNaN x.isNegative else x

theorem Alike.settled_eq {x y : Binary64} (hs : signs) (h : x.Alike signs y) :
    x.settled = y.settled := by
  rcases h with rfl | ⟨hx, hy, hsigns⟩
  · rfl
  · rw [settled, settled, if_pos hx, if_pos hy, hsigns hs]

theorem isNaN_settled (x : Binary64) : x.settled.isNaN = x.isNaN := by
  unfold settled
  split
  · rename_i hx
    rw [hx, isNaN, magnitude_signedNaN]
    decide
  · rfl

theorem isNegative_settled (x : Binary64) : x.settled.isNegative = x.isNegative := by
  unfold settled
  split
  · exact isNegative_signedNaN x.isNegative
  · rfl

theorem alike_of_settled_eq {x y : Binary64} (h : x.settled = y.settled) : x.Alike signs y := by
  have hnan : x.isNaN = y.isNaN := by rw [← isNaN_settled x, h, isNaN_settled]
  have hnegative : x.isNegative = y.isNegative := by
    rw [← isNegative_settled x, h, isNegative_settled]
  cases hx : x.isNaN with
  | true => exact Or.inr ⟨hx, hnan.symm.trans hx, fun _ => hnegative⟩
  | false =>
    have hy : y.isNaN = false := hnan.symm.trans hx
    refine Or.inl ?_
    simpa [settled, hx, hy] using h

theorem totalKey_settled (x : Binary64) :
    x.settled.totalKey =
      if x.isNaN then if x.isNegative then -(0x7FF8000000000000 : Int) - 1 else 0x7FF8000000000000
      else x.totalKey := by
  unfold settled
  split
  · rw [totalKey, isNegative_signedNaN, magnitude_signedNaN]
    rfl
  · rfl

/-- Putting one NaN for all of its sign keeps the order of the bits. -/
theorem totalKey_settled_le {x y : Binary64} (h : x.totalKey ≤ y.totalKey) :
    x.settled.totalKey ≤ y.settled.totalKey := by
  rw [totalKey_settled, totalKey_settled]
  unfold totalKey at h ⊢
  unfold isNaN infiniteMagnitude
  cases hx : x.isNegative <;> cases hy : y.isNegative <;>
    simp only [hx, hy, Bool.false_eq_true, if_false, if_true, decide_eq_true_eq] at h ⊢ <;>
    split <;> split <;> omega

theorem totalKey_inj {x y : Binary64} (h : x.totalKey = y.totalKey) : x = y := by
  have hparts : x.isNegative = y.isNegative ∧ x.magnitude = y.magnitude := by
    unfold totalKey at h
    cases hx : x.isNegative <;> cases hy : y.isNegative <;>
      simp only [hx, hy, Bool.false_eq_true, if_false, if_true] at h <;>
      refine ⟨?_, ?_⟩ <;> first | rfl | omega
  exact eq_of_parts hparts.1 hparts.2

/-- Doubles in the order of their bits. -/
def sorted (xs : List Binary64) : List Binary64 :=
  xs.mergeSort fun a b => a.totalKey ≤ b.totalKey

theorem pairwise_sorted (xs : List Binary64) :
    (sorted xs).Pairwise fun a b => a.totalKey ≤ b.totalKey := by
  have hpairwise : (sorted xs).Pairwise fun a b => decide (a.totalKey ≤ b.totalKey) = true :=
    List.pairwise_mergeSort
      (fun a b c hab hbc => by simp only [decide_eq_true_eq] at *; omega)
      (fun a b => by simp only [Bool.or_eq_true, decide_eq_true_eq]; omega) xs
  exact hpairwise.imp of_decide_eq_true

/-- Sorting first and putting one NaN for all of its sign afterwards is the same as the other way
round: either way the doubles end up in order. -/
theorem map_settled_sorted (xs : List Binary64) :
    (sorted xs).map settled = sorted (xs.map settled) := by
  have hpairwise : ((sorted xs).map settled).Pairwise fun a b => a.totalKey ≤ b.totalKey :=
    List.pairwise_map.2 ((pairwise_sorted xs).imp totalKey_settled_le)
  have hperm : ((sorted xs).map settled).Perm (sorted (xs.map settled)) :=
    ((List.mergeSort_perm xs _).map settled).trans (List.mergeSort_perm (xs.map settled) _).symm
  exact hperm.eq_of_pairwise (fun a b _ _ hab hba => totalKey_inj (Int.le_antisymm hab hba))
    hpairwise (pairwise_sorted _)

/-- Lists that are alike are alike place by place once they are sorted. -/
theorem alike_sorted (hs : signs) {xs ys : List Binary64}
    (h : List.Forall₂ (Binary64.Alike signs) xs ys) :
    List.Forall₂ (Binary64.Alike signs) (sorted xs) (sorted ys) := by
  have hmap : xs.map settled = ys.map settled :=
    map_eq_map_of_forall₂ h fun _ _ hxy => hxy.settled_eq hs
  have hsorted : (sorted xs).map settled = (sorted ys).map settled := by
    rw [map_settled_sorted, map_settled_sorted, hmap]
  rw [← List.forall₂_eq_eq_eq, List.forall₂_map_left_iff, List.forall₂_map_right_iff] at hsorted
  exact hsorted.imp fun _ _ => alike_of_settled_eq

end Binary64

theorem Accumulator.medianOf_eq_sorted (xs : List Binary64) :
    medianOf xs =
      if (Binary64.sorted xs).length = 0 then .nan
      else if (Binary64.sorted xs).length % 2 = 1 then
        (Binary64.sorted xs).getD ((Binary64.sorted xs).length / 2) .nan
      else
        ((Binary64.sorted xs).getD ((Binary64.sorted xs).length / 2 - 1) .nan +
          (Binary64.sorted xs).getD ((Binary64.sorted xs).length / 2) .nan) / .ofNat 2 :=
  rfl

theorem Accumulator.alike_medianOf (hs : signs) {xs ys : List Binary64}
    (h : List.Forall₂ (Binary64.Alike signs) xs ys) :
    (medianOf xs).Alike signs (medianOf ys) := by
  have hsorted := Binary64.alike_sorted hs h
  have hlength := hsorted.length_eq
  have hget : ∀ i, Binary64.Alike signs ((Binary64.sorted xs).getD i .nan)
      ((Binary64.sorted ys).getD i .nan) := by
    intro i
    rw [List.getD_eq_getElem?_getD, List.getD_eq_getElem?_getD]
    exact rel_getD (forall₂_getElem? hsorted i) (.refl _)
  rw [medianOf_eq_sorted, medianOf_eq_sorted, ← hlength]
  split
  · exact .refl _
  · split
    · exact hget _
    · exact ((hget _).add (hget _)).div (.refl _)

/-! ## States -/

/-- Numbers that are alike stay so if they are given as integers. -/
theorem Scalar.Alike.narrowed {x y : Binary64} (h : x.Alike signs y) (integerOnly : Bool) :
    Scalar.Alike signs (Accumulator.narrowed x integerOnly)
      (Accumulator.narrowed y integerOnly) := by
  rcases h with rfl | ⟨hx, hy, hsigns⟩
  · exact .refl _
  · simp only [Accumulator.narrowed, Binary64.isIntegral_of_isNaN hx,
      Binary64.isIntegral_of_isNaN hy, Bool.and_false]
    exact .number (Or.inr ⟨hx, hy, hsigns⟩)

/-- Moments of numbers that are alike. -/
structure Moments.Alike (signs : Prop) (m m' : Moments Binary64) : Prop where
  count : m.count.Alike signs m'.count
  mean : m.mean.Alike signs m'.mean
  deviations : m.deviations.Alike signs m'.deviations

namespace Moments.Alike

variable {m m' : Moments Binary64}

theorem push (h : m.Alike signs m') {x y : Binary64} (hxy : x.Alike signs y) :
    (m.push x).Alike signs (m'.push y) := by
  have hcount := h.count.add (.refl 1)
  have hdelta := hxy.sub h.mean
  have hmean := h.mean.add (hdelta.div hcount)
  exact ⟨hcount, hmean, h.deviations.add (hdelta.mul (hxy.sub hmean))⟩

theorem population (h : m.Alike signs m') : m.population.Alike signs m'.population :=
  h.deviations.div h.count

theorem sample (h : m.Alike signs m') : m.sample.Alike signs m'.sample :=
  h.deviations.div (h.count.add (.refl 1))

theorem ofMoments (h : m.Alike signs m') (r : Reducer) :
    (r.ofMoments m).Alike signs (r.ofMoments m') := by
  unfold Reducer.ofMoments
  split
  · exact h.population
  · exact h.sample
  · exact h.population.sqrt
  · exact h.sample.sqrt

end Moments.Alike

namespace Accumulator

/-- What a reduction keeps of scalars that are alike.  There are medians only if signs are kept. -/
inductive State.Alike (signs : Prop) : State → State → Prop where
  | count (n : Nat) : Alike signs (.count n) (.count n)
  | sum {x y : Binary64} : x.Alike signs y → Alike signs (.sum x) (.sum y)
  | average {x y : Binary64} (n : Nat) : x.Alike signs y → Alike signs (.average x n) (.average y n)
  | median {xs ys : List Binary64} : signs → List.Forall₂ (Binary64.Alike signs) xs ys →
    Alike signs (.median xs) (.median ys)
  | least {v w : Option Scalar} : Option.Rel (Scalar.Alike signs) v w →
    Alike signs (.least v) (.least w)
  | greatest {v w : Option Scalar} : Option.Rel (Scalar.Alike signs) v w →
    Alike signs (.greatest v) (.greatest w)
  | moments {m m' : Moments Binary64} : m.Alike signs m' → Alike signs (.moments m) (.moments m')
  | first {v w : Option Scalar} : Option.Rel (Scalar.Alike signs) v w →
    Alike signs (.first v) (.first w)
  | last {v w : Option Scalar} : Option.Rel (Scalar.Alike signs) v w →
    Alike signs (.last v) (.last w)

/-- The states are alike, and the accumulators give integers alike. -/
structure Alike (signs : Prop) (a a' : Accumulator) : Prop where
  state : a.state.Alike signs a'.state
  integerOnly : a.integerOnly = a'.integerOnly

variable {v w : Scalar} {a a' : Accumulator}

theorem alike_numberOf (h : v.Alike signs w) : (numberOf v).Alike signs (numberOf w) :=
  h.getD_number? .nan

theorem rel_prefer (wanted : Ordering) {p q : Option Scalar}
    (hpq : Option.Rel (Scalar.Alike signs) p q) (h : v.Alike signs w) :
    Option.Rel (Scalar.Alike signs) (prefer wanted p v) (prefer wanted q w) := by
  cases hpq with
  | none => exact .some h
  | some hpresent =>
    simp only [prefer, h.order_congr hpresent]
    split
    · exact .some h
    · exact .some hpresent

theorem State.Alike.push {s s' : State} (hs : s.Alike signs s') (h : v.Alike signs w) :
    (s.push v).Alike signs (s'.push w) := by
  cases hs with
  | count n => exact .count (n + 1)
  | sum hx => exact .sum (hx.add (alike_numberOf h))
  | average n hx => exact .average (n + 1) (hx.add (alike_numberOf h))
  | median hkept hxs => exact .median hkept (List.rel_append hxs (.cons (alike_numberOf h) .nil))
  | least hvalue => exact .least (rel_prefer .lt hvalue h)
  | greatest hvalue => exact .greatest (rel_prefer .gt hvalue h)
  | moments hm => exact .moments (hm.push (alike_numberOf h))
  | first hvalue =>
    cases hvalue with
    | none => exact .first (.some h)
    | some hpresent => exact .first (.some hpresent)
  | last _ => exact .last (.some h)

theorem Alike.accumulate (ha : a.Alike signs a') {x y : Option Scalar}
    (h : Option.Rel (Scalar.Alike signs) x y) :
    (a.accumulate x).Alike signs (a'.accumulate y) := by
  obtain ⟨state, integerOnly⟩ := a
  obtain ⟨state', integerOnly'⟩ := a'
  obtain ⟨hstate, rfl⟩ := ha
  cases h with
  | none => cases hstate <;> exact ⟨by constructor <;> assumption, rfl⟩
  | @some v w hvw =>
    have hnext : ((if v.isNull then state else state.push v : State)).Alike signs
        (if w.isNull then state' else state'.push w) := by
      rw [hvw.isNull_eq]
      split
      · exact hstate
      · exact hstate.push hvw
    have hdomain := hvw.domain_eq
    cases hstate with
    | count n => exact ⟨.count (n + 1), rfl⟩
    | _ => exact ⟨hnext, by simp only [accumulate, hdomain]⟩

end Accumulator

namespace Reducer

variable {r : Reducer}

/-- The reducer makes results that are alike of scalars that are: signs are kept, or it is not the
median. -/
def Respects (signs : Prop) (r : Reducer) : Prop := signs ∨ r ≠ .statistic .median

theorem alike_accumulator (hr : r.Respects signs) :
    r.accumulator.Alike signs r.accumulator := by
  refine ⟨?_, rfl⟩
  cases r with
  | statistic s =>
    cases s with
    | median => exact .median (hr.resolve_right fun h => h rfl) .nil
    | count => exact .count 0
    | sum => exact .sum (.refl 0)
    | average => exact .average 0 (.refl 0)
    | least => exact .least .none
    | greatest => exact .greatest .none
    | _ => exact .moments ⟨.refl 0, .refl 0, .refl 0⟩
  | firstValue => exact .first .none
  | lastValue => exact .last .none

theorem alike_finishWith {a a' : Accumulator} (h : a.Alike signs a') (emptyExtreme : Scalar) :
    (r.finishWith emptyExtreme a).Alike signs (r.finishWith emptyExtreme a') := by
  obtain ⟨state, integerOnly⟩ := a
  obtain ⟨state', integerOnly'⟩ := a'
  obtain ⟨hstate, rfl⟩ := h
  cases hstate with
  | count n => exact .refl _
  | sum hx => exact .narrowed hx integerOnly
  | average n hx =>
    refine .narrowed ?_ integerOnly
    split
    · exact .refl 0
    · exact hx.div (.refl _)
  | median hs hxs => exact .number (Accumulator.alike_medianOf hs hxs)
  | moments hm => exact .number (hm.ofMoments r)
  | least hvalue => exact rel_getD hvalue (.refl _)
  | greatest hvalue => exact rel_getD hvalue (.refl _)
  | first hvalue => exact rel_getD hvalue (.refl _)
  | last hvalue => exact rel_getD hvalue (.refl _)

end Reducer

end DataCube
