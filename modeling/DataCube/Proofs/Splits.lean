import DataCube.Proofs.NullExclusion
import DataCube.Proofs.ScalarOrder

/-!
# Reductions shared over slices

A reduction can be shared: every slice of the input is folded in on its own, and the accumulators of
neighbouring slices are combined.  Where nothing is rounded this ends with the very accumulator of a
single pass, because folding in one more value and combining with the slices before it can be done
in either order.

* `Accumulator.State.Exact`: the states that are put together without rounding, two of one kind.
* `Accumulator.State.combine_push`, `Accumulator.combine_accumulate`: the step that combining
  commutes with.  For the extremes it rests on the value order being transitive.
* `Reducer.fold_append`: the accumulator of two adjacent parts.
* `split_roundingFree`: the result for the reducers over such states.
-/

namespace DataCube

/-! ## The better of two scalars -/

namespace Scalar

variable {wanted : Ordering} {a b c : Scalar}

theorem order_trans (hwanted : wanted ≠ .eq) (hab : a.order b = wanted) (hbc : b.order c = wanted) :
    a.order c = wanted := by
  cases wanted with
  | lt => exact Std.TransCmp.lt_trans hab hbc
  | gt => exact Std.TransCmp.gt_trans hab hbc
  | eq => exact absurd rfl hwanted

/-- What is better than a scalar is better than everything that is not. -/
theorem order_of_not_order (hwanted : wanted ≠ .eq) (hac : a.order c = wanted)
    (hbc : b.order c ≠ wanted) : a.order b = wanted := by
  have hswap : b.order c = (c.order b).swap := Std.OrientedCmp.eq_swap
  rw [hswap] at hbc
  cases wanted with
  | lt =>
    refine Std.TransCmp.lt_of_lt_of_isLE hac ?_
    cases h : c.order b with
    | gt => exact absurd (by rw [h]; rfl) hbc
    | _ => rfl
  | gt =>
    refine Std.TransCmp.gt_of_gt_of_isGE hac ?_
    cases h : c.order b with
    | lt => exact absurd (by rw [h]; rfl) hbc
    | _ => rfl
  | eq => exact absurd rfl hwanted

end Scalar

namespace Accumulator

namespace State

/-- Taking the better of a value and what is there can be done before or after combining: of those
that compare equal the first one is kept either way. -/
theorem pick_prefer {wanted : Ordering} (hwanted : wanted ≠ .eq) (left right : Option Scalar)
    (v : Scalar) :
    pick wanted left (prefer wanted right v) = prefer wanted (pick wanted left right) v := by
  cases right with
  | none => rfl
  | some q =>
    cases left with
    | none =>
      by_cases hvq : v.order q = wanted <;> simp [pick, prefer, hvq]
    | some p =>
      by_cases hvq : v.order q = wanted
      · by_cases hqp : q.order p = wanted
        · have hvp : v.order p = wanted := Scalar.order_trans hwanted hvq hqp
          simp [pick, prefer, hvq, hqp, hvp]
        · simp [pick, prefer, hvq, hqp]
      · by_cases hqp : q.order p = wanted
        · simp [pick, prefer, hvq, hqp]
        · have hvp : v.order p ≠ wanted := fun hvp =>
            hvq (Scalar.order_of_not_order hwanted hvp hqp)
          simp [pick, prefer, hvq, hqp, hvp]

/-! ## States -/

/-- Two states of one kind that are put together without rounding. -/
inductive Exact : State → State → Prop where
  | count (m n : Nat) : Exact (.count m) (.count n)
  | median (as bs : List Binary64) : Exact (.median as) (.median bs)
  | least (a b : Option Scalar) : Exact (.least a) (.least b)
  | greatest (a b : Option Scalar) : Exact (.greatest a) (.greatest b)
  | first (a b : Option Scalar) : Exact (.first a) (.first b)
  | last (a b : Option Scalar) : Exact (.last a) (.last b)

variable {s t : State}

theorem Exact.symm (h : Exact s t) : Exact t s := by
  cases h <;> constructor

theorem Exact.push (h : Exact s t) (v : Scalar) : Exact s (t.push v) := by
  cases h <;> constructor

theorem Exact.isCount_combine (h : Exact s t) : (s.combine t).isCount = t.isCount := by
  cases h <;> rfl

/-- A value is folded in before combining with what comes before it, or after. -/
theorem combine_push (h : Exact s t) (v : Scalar) :
    s.combine (t.push v) = (s.combine t).push v := by
  cases h with
  | count m n => rfl
  | median as bs => exact congrArg median (List.append_assoc as bs _).symm
  | least a b => exact congrArg least (pick_prefer (by decide) a b v)
  | greatest a b => exact congrArg greatest (pick_prefer (by decide) a b v)
  | first a b => exact congrArg first Option.or_assoc.symm
  | last a b => rfl

end State

/-! ## Accumulators -/

variable {a b : Accumulator}

theorem accumulate_none (ha : a.state.isCount = false) : a.accumulate none = a := by
  obtain ⟨state, integerOnly⟩ := a
  cases state with
  | count n => nomatch ha
  | _ => rfl

theorem exact_accumulate {s : State} (h : s.Exact b.state) (input : Option Scalar) :
    s.Exact (b.accumulate input).state := by
  unfold accumulate
  split
  · rename_i n hb
    rw [hb] at h
    cases h
    exact .count _ (n + 1)
  · exact h
  · rename_i v _
    cases v.isNull with
    | true => exact h
    | false => exact h.push v

theorem exact_foldl {s : State} (h : s.Exact b.state) (inputs : List (Option Scalar)) :
    s.Exact (inputs.foldl accumulate b).state := by
  induction inputs generalizing b with
  | nil => exact h
  | cons input inputs ih => exact ih (exact_accumulate h input)

/-- An input is folded in before combining with what comes before it, or after. -/
theorem combine_accumulate (h : a.state.Exact b.state) (input : Option Scalar) :
    a.combine (b.accumulate input) = (a.combine b).accumulate input := by
  obtain ⟨s, integerOnly⟩ := a
  obtain ⟨t, integerOnly'⟩ := b
  change s.Exact t at h
  cases ht : t.isCount with
  | true =>
    cases h with
    | count m n => rfl
    | _ => nomatch ht
  | false =>
    have hcombined : (s.combine t).isCount = false := h.isCount_combine.trans ht
    cases input with
    | none => rw [accumulate_none ht, accumulate_none hcombined]
    | some v =>
      rw [accumulate_some ht, accumulate_some hcombined, combine, combine, Bool.and_assoc]
      cases v.isNull with
      | true => rfl
      | false => exact congrArg (Accumulator.mk · _) (State.combine_push h v)

/-- The same for a sequence of inputs. -/
theorem combine_foldl (h : a.state.Exact b.state) (inputs : List (Option Scalar)) :
    a.combine (inputs.foldl accumulate b) = inputs.foldl accumulate (a.combine b) := by
  induction inputs generalizing b with
  | nil => rfl
  | cons input inputs ih =>
    rw [List.foldl_cons, List.foldl_cons, ih (exact_accumulate h input), combine_accumulate h]

end Accumulator

/-! ## Reducers -/

namespace Reducer

/-- The reducers over such states. -/
def roundingFree : List Reducer :=
  [.statistic .count, .statistic .median, .statistic .least, .statistic .greatest, .firstValue,
    .lastValue]

variable {r : Reducer}

theorem exact_initialState (hr : r ∈ roundingFree) : r.initialState.Exact r.initialState := by
  simp only [roundingFree, List.mem_cons, List.not_mem_nil, or_false] at hr
  rcases hr with rfl | rfl | rfl | rfl | rfl | rfl <;> constructor

/-- Having seen nothing adds nothing to what comes before. -/
theorem combine_initialState (hr : r ∈ roundingFree) {s : Accumulator.State}
    (h : s.Exact r.initialState) : s.combine r.initialState = s := by
  simp only [roundingFree, List.mem_cons, List.not_mem_nil, or_false] at hr
  rcases hr with rfl | rfl | rfl | rfl | rfl | rfl <;> cases h <;>
    simp [initialState, Accumulator.State.combine, Accumulator.State.pick]

/-- The accumulator of a sequence of inputs. -/
def fold (r : Reducer) (inputs : List (Option Scalar)) : Accumulator :=
  inputs.foldl Accumulator.accumulate r.accumulator

theorem run_eq_fold (values : List Scalar) : r.run values = r.fold (values.map some) :=
  List.foldl_map.symm

theorem runRows_eq_fold (measure : Component) (rows : List Row) :
    r.runRows measure rows = r.fold (rows.map (r.extract measure)) :=
  List.foldl_map.symm

/-- The accumulator of two adjacent parts is put together from theirs. -/
theorem fold_append (hr : r ∈ roundingFree) (xs ys : List (Option Scalar)) :
    r.fold (xs ++ ys) = (r.fold xs).combine (r.fold ys) := by
  have hstart := exact_initialState hr
  have hleft : (r.fold xs).state.Exact r.accumulator.state :=
    (Accumulator.exact_foldl hstart xs).symm
  have hempty : (r.fold xs).combine r.accumulator = r.fold xs := by
    rw [Accumulator.combine, show r.accumulator.state = r.initialState from rfl,
      combine_initialState hr hleft, show r.accumulator.integerOnly = true from rfl, Bool.and_true]
  calc r.fold (xs ++ ys) = ys.foldl Accumulator.accumulate (r.fold xs) := List.foldl_append
    _ = ys.foldl Accumulator.accumulate ((r.fold xs).combine r.accumulator) := by rw [hempty]
    _ = (r.fold xs).combine (r.fold ys) := (Accumulator.combine_foldl hleft ys).symm

theorem runSplit_eq_run (hr : r ∈ roundingFree) (values : Split Scalar) :
    r.runSplit values = r.run values.toList :=
  Split.reduce_eq (fun xs ys => by
    rw [run_eq_fold, run_eq_fold, run_eq_fold, List.map_append, fold_append hr]) values

/-- The same for a measure over rows. -/
theorem reduce_runRows_eq (hr : r ∈ roundingFree) (measure : Component) (rows : Split Row) :
    rows.reduce (r.runRows measure) Accumulator.combine = r.runRows measure rows.toList :=
  Split.reduce_eq (fun xs ys => by
    rw [runRows_eq_fold, runRows_eq_fold, runRows_eq_fold, List.map_append, fold_append hr]) rows

end Reducer

/-- Counts, medians, extremes, first and last values do not depend on how the input is cut into
slices: every accumulator that the slices can be combined to is that of a single pass, so both forms
give the very same scalar, and over rows as well as over scalars. -/
theorem split_roundingFree {r : Reducer} (hr : r ∈ Reducer.roundingFree) :
    (∀ values : Split Scalar,
      r.runSplit values = r.run values.toList ∧ r.reduceSplit values = r.reduce values.toList) ∧
      (∀ s : Statistic, r = .statistic s →
        ∀ values : Split Scalar, s.reduceSplit values = s.reduce values.toList) ∧
      ∀ (measure : Component) (rows : Split Row),
        rows.reduce (r.runRows measure) Accumulator.combine = r.runRows measure rows.toList := by
  refine ⟨fun values => ⟨Reducer.runSplit_eq_run hr values, ?_⟩, ?_, Reducer.reduce_runRows_eq hr⟩
  · exact congrArg r.finish (Reducer.runSplit_eq_run hr values)
  · rintro s rfl values
    exact congrArg s.finish (Reducer.runSplit_eq_run hr values)

/-- Of two zeros, which compare equal, the first one is the least value wherever the list is cut. -/
theorem split_roundingFree_zeros :
    Reducer.statistic .least ∈ Reducer.roundingFree ∧
      Statistic.least.reduceSplit
        (.join (.slice [.null .number, .number 0]) (.join (.slice []) (.slice [.number (-0)]))) =
          .number 0 ∧
      Scalar.order (.number (-0)) (.number 0) = .eq := by
  have hr : Reducer.statistic .least ∈ Reducer.roundingFree := by decide
  refine ⟨hr, ?_, by decide⟩
  rw [(split_roundingFree hr).2.1 .least rfl]
  decide

end DataCube
