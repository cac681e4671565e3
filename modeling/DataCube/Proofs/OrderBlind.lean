import DataCube.Proofs.Interchange.Reductions
import DataCube.Proofs.Splits

/-!
# Reductions that are blind to order

Counts, medians and extremes do not depend on the order of the values.  A count looks at their
number alone.  A median looks at them in the order of their bits, and there is only one list of them
in that order.  An extreme is the first of the values that no other one is better than: which one
comes first depends on the order, but they all compare equal.

* `Scalar.Best`: a value that no other one is better than.  Folding in one more value keeps it
  (`Scalar.Best.prefer`), and there is only one up to equality (`Scalar.Best.rel`).
* `Accumulator.medianOf_perm`: the median of numbers in another order.
* `Statistic.Prefers`: the extremes, and which of two values they take.
* `Reducer.finishWith_median`, `Reducer.exists_extreme`: the results over a list.
* `order_blind`: the result.
-/

namespace DataCube

/-! ## The best of a list -/

namespace Scalar

variable {wanted : Ordering} {xs ys : List Scalar}

/-- One of the values, which no other one is better than; there is none if there are no values. -/
def Best (wanted : Ordering) (xs : List Scalar) : Option Scalar → Prop
  | none => xs = []
  | some v => v ∈ xs ∧ ∀ u ∈ xs, u.order v ≠ wanted

/-- Neither of two scalars is better than the other just if they are equal under the order. -/
theorem order_eq_of_not_order {u v : Scalar} (hwanted : wanted ≠ .eq) (huv : u.order v ≠ wanted)
    (hvu : v.order u ≠ wanted) : u.order v = .eq := by
  have hswap : v.order u = (u.order v).swap := Std.OrientedCmp.eq_swap
  rw [hswap] at hvu
  generalize u.order v = o at huv hvu ⊢
  cases wanted with
  | eq => exact absurd rfl hwanted
  | lt | gt => cases o <;> simp_all

namespace Best

/-- The better of a value and the best so far is the best of them all. -/
theorem prefer (hwanted : wanted ≠ .eq) {best : Option Scalar} (h : Best wanted xs best)
    (v : Scalar) : Best wanted (xs ++ [v]) (Accumulator.prefer wanted best v) := by
  have hself : v.order v ≠ wanted := by
    have hrefl : v.order v = .eq := Std.ReflCmp.compare_self
    rw [hrefl]
    exact hwanted.symm
  cases best with
  | none =>
    have hnone : xs = [] := h
    subst hnone
    exact ⟨List.mem_singleton_self v, fun u hu => List.mem_singleton.1 hu ▸ hself⟩
  | some p =>
    obtain ⟨hp, hbest⟩ := h
    by_cases hv : v.order p = wanted
    · rw [show Accumulator.prefer wanted (some p) v = some v from if_pos hv]
      refine ⟨List.mem_append_right _ (List.mem_singleton_self v), fun u hu huv => ?_⟩
      rcases List.mem_append.1 hu with hu | hu
      · exact hbest u hu (order_trans hwanted huv hv)
      · exact hself (List.mem_singleton.1 hu ▸ huv)
    · rw [show Accumulator.prefer wanted (some p) v = some p from if_neg hv]
      refine ⟨List.mem_append_left _ hp, fun u hu => ?_⟩
      rcases List.mem_append.1 hu with hu | hu
      · exact hbest u hu
      · exact List.mem_singleton.1 hu ▸ hv

/-- Folding in the values one by one ends with the best of them. -/
theorem foldl (hwanted : wanted ≠ .eq) {best : Option Scalar} (h : Best wanted xs best)
    (ys : List Scalar) :
    Best wanted (xs ++ ys) (ys.foldl (Accumulator.prefer wanted) best) := by
  induction ys generalizing xs best with
  | nil => rwa [List.append_nil]
  | cons v ys ih =>
    have hrest := ih (h.prefer hwanted v)
    rwa [List.append_assoc] at hrest

/-- The best of the same values in another order compares equal. -/
theorem rel (hwanted : wanted ≠ .eq) (hperm : xs.Perm ys) {a b : Option Scalar}
    (ha : Best wanted xs a) (hb : Best wanted ys b) :
    Option.Rel (fun u v => u.order v = .eq) a b := by
  cases a with
  | none =>
    have hempty : xs = [] := ha
    rw [hempty] at hperm
    rw [hperm.symm.eq_nil] at hb
    cases b with
    | none => exact .none
    | some v => nomatch hb.1
  | some u =>
    cases b with
    | none =>
      have hempty : ys = [] := hb
      rw [hempty] at hperm
      rw [hperm.eq_nil] at ha
      nomatch ha.1
    | some v =>
      exact .some (order_eq_of_not_order hwanted (hb.2 u (hperm.mem_iff.1 ha.1))
        (ha.2 v (hperm.mem_iff.2 hb.1)))

/-- The best of some of the values is the best of them all, if every other one has one among these
that it is not better than. -/
theorem of_cover (hwanted : wanted ≠ .eq) {best : Option Scalar} (h : Best wanted ys best)
    (hys : ys ⊆ xs) (hcover : ∀ x ∈ xs, ∃ y ∈ ys, x.order y ≠ wanted) : Best wanted xs best := by
  cases best with
  | none =>
    have hnone : ys = [] := h
    refine List.eq_nil_iff_forall_not_mem.2 fun x hx => ?_
    obtain ⟨y, hy, -⟩ := hcover x hx
    rw [hnone] at hy
    nomatch hy
  | some v =>
    refine ⟨hys h.1, fun x hx hxv => ?_⟩
    obtain ⟨y, hy, hxy⟩ := hcover x hx
    exact hxy (order_of_not_order hwanted hxv (h.2 y hy))

end Best

end Scalar

/-! ## Passes over a list -/

namespace Accumulator

/-- Only one list of the same numbers is in the order of their bits. -/
theorem medianOf_perm {xs ys : List Binary64} (h : xs.Perm ys) : medianOf xs = medianOf ys := by
  have hperm : (Binary64.sorted xs).Perm (Binary64.sorted ys) :=
    ((List.mergeSort_perm xs _).trans h).trans (List.mergeSort_perm ys _).symm
  have hsorted : Binary64.sorted xs = Binary64.sorted ys :=
    hperm.eq_of_pairwise (fun a b _ _ hab hba => Binary64.totalKey_inj (Int.le_antisymm hab hba))
      (Binary64.pairwise_sorted xs) (Binary64.pairwise_sorted ys)
  rw [medianOf_eq_sorted, medianOf_eq_sorted, hsorted]

namespace State

theorem foldl_push_median (xs : List Scalar) (values : List Binary64) :
    xs.foldl (fun s v => s.push v) (median values) = median (values ++ xs.map numberOf) := by
  induction xs generalizing values with
  | nil => rw [List.map_nil, List.append_nil]; rfl
  | cons v xs ih =>
    rw [List.foldl_cons, push, ih, List.map_cons, List.append_assoc]
    rfl

theorem foldl_push_least (xs : List Scalar) (best : Option Scalar) :
    xs.foldl (fun s v => s.push v) (least best) = least (xs.foldl (prefer .lt) best) := by
  induction xs generalizing best with
  | nil => rfl
  | cons v xs ih => exact ih (prefer .lt best v)

theorem foldl_push_greatest (xs : List Scalar) (best : Option Scalar) :
    xs.foldl (fun s v => s.push v) (greatest best) = greatest (xs.foldl (prefer .gt) best) := by
  induction xs generalizing best with
  | nil => rfl
  | cons v xs ih => exact ih (prefer .gt best v)

end State

end Accumulator

/-! ## Results -/

/-- The statistic is an extreme, and this is how the better of two values compares to the other. -/
inductive Statistic.Prefers : Statistic → Ordering → Prop where
  | least : Prefers .least .lt
  | greatest : Prefers .greatest .gt

theorem Statistic.Prefers.ne_eq {s : Statistic} {wanted : Ordering} (h : s.Prefers wanted) :
    wanted ≠ .eq := by
  cases h <;> decide

theorem Statistic.exists_prefers {s : Statistic} (hs : s ∈ [Statistic.least, .greatest]) :
    ∃ wanted, s.Prefers wanted := by
  simp only [List.mem_cons, List.not_mem_nil, or_false] at hs
  rcases hs with rfl | rfl
  · exact ⟨.lt, .least⟩
  · exact ⟨.gt, .greatest⟩

namespace Reducer

open Scalar (nonNull Best)

/-- A median is that of the numbers of the values that are not null. -/
theorem finishWith_median (emptyExtreme : Scalar) (xs : List Scalar) :
    (statistic .median).finishWith emptyExtreme ((statistic .median).run xs) =
      .number (Accumulator.medianOf ((nonNull xs).map Accumulator.numberOf)) := by
  have hstate : ((statistic .median).run xs).state =
      .median ((nonNull xs).map Accumulator.numberOf) :=
    (Accumulator.state_foldl rfl xs).trans (Accumulator.State.foldl_push_median (nonNull xs) [])
  rw [finishWith, hstate]

/-- An extreme is the best of the values that are not null, if there is one. -/
theorem exists_extreme {s : Statistic} {wanted : Ordering} (hs : s.Prefers wanted)
    (xs : List Scalar) :
    ∃ best, Best wanted (nonNull xs) best ∧ ∀ emptyExtreme,
      (statistic s).finishWith emptyExtreme ((statistic s).run xs) = best.getD emptyExtreme := by
  have hnothing : Best wanted [] none := rfl
  refine ⟨_, hnothing.foldl hs.ne_eq (nonNull xs), fun emptyExtreme => ?_⟩
  cases hs with
  | least =>
    have hstate := (Accumulator.state_foldl (a := (statistic .least).accumulator) rfl xs).trans
      (Accumulator.State.foldl_push_least (nonNull xs) none)
    rw [finishWith, run, hstate]
  | greatest =>
    have hstate := (Accumulator.state_foldl (a := (statistic .greatest).accumulator) rfl xs).trans
      (Accumulator.State.foldl_push_greatest (nonNull xs) none)
    rw [finishWith, run, hstate]

variable {xs ys : List Scalar}

theorem finishWith_perm {s : Statistic} (hs : s ∈ [Statistic.count, .median]) (h : xs.Perm ys)
    (emptyExtreme : Scalar) :
    (statistic s).finishWith emptyExtreme ((statistic s).run xs) =
      (statistic s).finishWith emptyExtreme ((statistic s).run ys) := by
  simp only [List.mem_cons, List.not_mem_nil, or_false] at hs
  rcases hs with rfl | rfl
  · simp [finishWith, run_count, h.length_eq]
  · have hnonNull : (nonNull xs).Perm (nonNull ys) := h.filter _
    rw [finishWith_median, finishWith_median, Accumulator.medianOf_perm (hnonNull.map _)]

theorem order_finishWith_perm {s : Statistic} (hs : s ∈ [Statistic.least, .greatest])
    (h : xs.Perm ys) (emptyExtreme : Scalar) :
    ((statistic s).finishWith emptyExtreme ((statistic s).run xs)).order
      ((statistic s).finishWith emptyExtreme ((statistic s).run ys)) = .eq := by
  obtain ⟨wanted, hprefers⟩ := Statistic.exists_prefers hs
  obtain ⟨best, hbest, hx⟩ := exists_extreme hprefers xs
  obtain ⟨best', hbest', hy⟩ := exists_extreme hprefers ys
  rw [hx, hy]
  exact rel_getD (hbest.rel hprefers.ne_eq (h.filter _) hbest') Std.ReflCmp.compare_self

end Reducer

/-- The count and the median of a list are the very same scalar for the list in any other order, and
its least and greatest values compare equal, in the aggregate and in the analytic form. -/
theorem order_blind {xs ys : List Scalar} (h : xs.Perm ys) :
    (∀ s ∈ [Statistic.count, .median], s.reduce xs = s.reduce ys ∧
      (Reducer.statistic s).reduce xs = (Reducer.statistic s).reduce ys) ∧
      ∀ s ∈ [Statistic.least, .greatest], (s.reduce xs).order (s.reduce ys) = .eq ∧
        ((Reducer.statistic s).reduce xs).order ((Reducer.statistic s).reduce ys) = .eq := by
  constructor
  · intro s hs
    exact ⟨Reducer.finishWith_perm hs h _, Reducer.finishWith_perm hs h _⟩
  · intro s hs
    exact ⟨Reducer.order_finishWith_perm hs h _, Reducer.order_finishWith_perm hs h _⟩

/-- Which zero is the least value depends on the order, but the two compare equal; the median is the
same one. -/
theorem order_blind_zeros :
    [Scalar.number 0, .null .number, .number (-0)].Perm [.number (-0), .number 0, .null .number] ∧
      Statistic.least.reduce [.number 0, .null .number, .number (-0)] = .number 0 ∧
      Statistic.least.reduce [.number (-0), .number 0, .null .number] = .number (-0) ∧
      (Scalar.number 0).order (.number (-0)) = .eq ∧
      Statistic.median.reduce [.number 0, .null .number, .number (-0)] =
        Statistic.median.reduce [.number (-0), .number 0, .null .number] := by
  have hperm : [Scalar.number 0, .null .number, .number (-0)].Perm
      [.number (-0), .number 0, .null .number] := by decide
  have hleft : Statistic.least.reduce [.number 0, .null .number, .number (-0)] = .number 0 := by
    decide
  have hright : Statistic.least.reduce [.number (-0), .number 0, .null .number] =
      .number (-0) := by decide
  have hzeros := ((order_blind hperm).2 .least (by decide)).1
  rw [hleft, hright] at hzeros
  exact ⟨hperm, hleft, hright, hzeros, ((order_blind hperm).1 .median (by decide)).1⟩

end DataCube
