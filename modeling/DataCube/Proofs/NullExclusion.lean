import Mathlib.Algebra.Group.Nat.Defs
import Mathlib.Data.List.Basic
import DataCube.Reducer

/-!
# Nulls in reductions

Every reducer but the count skips nulls, so the nulls of a list do not change what it is reduced to.
An accumulator has two parts, and they are touched differently: a null leaves the state as it is,
but it still takes part in the decision whether a sum or an average is given as an integer.  A null
of a domain that no integer goes into therefore turns such an integer into the double equal to it.

* `Accumulator.state_foldl`, `Accumulator.integerOnly_foldl`: what a pass over a list makes of the
  two parts.
* `Reducer.finishWith_eq`: a result depends on the second part only if it is a sum or an average.
* `nulls_excluded`: reductions with and without nulls, and the count of both.
-/

namespace DataCube

namespace Scalar

/-- The scalars that are not null. -/
def nonNull (xs : List Scalar) : List Scalar := xs.filter fun v => ! v.isNull

/-- A null tagged with a domain that no integer goes into. -/
def isForeignNull (v : Scalar) : Bool := v.isNull && ! Domain.integer.accepts v.domain

theorem nonNull_nonNull (xs : List Scalar) : nonNull (nonNull xs) = nonNull xs := by
  simp [nonNull, List.filter_filter]

/-- All domains go with an integer if those of the scalars that are not null do, and no null is
foreign. -/
theorem all_accepts (xs : List Scalar) :
    (xs.all fun v => Domain.integer.accepts v.domain) =
      ((nonNull xs).all (fun v => Domain.integer.accepts v.domain) &&
        ! xs.any isForeignNull) := by
  induction xs with
  | nil => rfl
  | cons v xs ih =>
    cases hnull : v.isNull <;> cases haccepts : Domain.integer.accepts v.domain <;>
      simp_all [nonNull, isForeignNull]

end Scalar

/-! ## A pass over a list -/

namespace Accumulator

open Scalar (nonNull nonNull_nonNull isForeignNull)

/-- The number that the state of a sum or an average stands for. -/
def State.whole? : State → Option Binary64
  | sum total => some total
  | average total n => some (if n = 0 then 0 else total / .ofNat n)
  | _ => none

/-- The state is that of a count. -/
def State.isCount : State → Bool
  | count _ => true
  | _ => false

theorem State.isCount_push (v : Scalar) (s : State) : (s.push v).isCount = s.isCount := by
  cases s <;> simp [push, isCount]

theorem State.isSome_whole?_push (v : Scalar) (s : State) :
    (s.push v).whole?.isSome = s.whole?.isSome := by
  cases s <;> simp [push, whole?]

/-- A step of an accumulator that does not count: the state takes in what is not null, and the flag
looks at every domain. -/
theorem accumulate_some {a : Accumulator} (ha : a.state.isCount = false) (v : Scalar) :
    a.accumulate (some v) =
      ⟨if v.isNull then a.state else a.state.push v,
        a.integerOnly && Domain.integer.accepts v.domain⟩ := by
  obtain ⟨state, integerOnly⟩ := a
  cases state with
  | count n => nomatch ha
  | _ => rfl

theorem isCount_accumulate {a : Accumulator} (ha : a.state.isCount = false) (v : Scalar) :
    (a.accumulate (some v)).state.isCount = false := by
  rw [accumulate_some ha]
  cases v.isNull with
  | true => exact ha
  | false => exact (State.isCount_push v a.state).trans ha

/-- The state after a list is that after the scalars of it that are not null. -/
theorem state_foldl {a : Accumulator} (ha : a.state.isCount = false) (xs : List Scalar) :
    (xs.foldl (fun a v => a.accumulate (some v)) a).state =
      (nonNull xs).foldl (fun s v => s.push v) a.state := by
  induction xs generalizing a with
  | nil => rfl
  | cons v xs ih =>
    rw [List.foldl_cons, ih (isCount_accumulate ha v), accumulate_some ha]
    cases hnull : v.isNull <;> simp [nonNull, hnull]

theorem integerOnly_foldl {a : Accumulator} (ha : a.state.isCount = false) (xs : List Scalar) :
    (xs.foldl (fun a v => a.accumulate (some v)) a).integerOnly =
      (a.integerOnly && xs.all fun v => Domain.integer.accepts v.domain) := by
  induction xs generalizing a with
  | nil => simp
  | cons v xs ih =>
    rw [List.foldl_cons, ih (isCount_accumulate ha v), accumulate_some ha]
    simp [Bool.and_assoc]

/-- A count goes up by one for every scalar, null or not. -/
theorem state_foldl_count (xs : List Scalar) {a : Accumulator} {n : Nat}
    (ha : a.state = .count n) :
    (xs.foldl (fun a v => a.accumulate (some v)) a).state = .count (n + xs.length) := by
  induction xs generalizing a n with
  | nil => exact ha
  | cons v xs ih =>
    have hstep : (a.accumulate (some v)).state = .count (n + 1) := by simp [accumulate, ha]
    rw [List.foldl_cons, ih hstep, List.length_cons, Nat.add_assoc, Nat.add_comm 1]

/-- A number is given as an integer only if it is equal to it. -/
theorem narrowed_cases (x : Binary64) (integerOnly : Bool) :
    narrowed x integerOnly = .number x ∨
      ∃ i, narrowed x integerOnly = .integer i ∧ x.isIntegral = true ∧ x.truncate = i.toInt := by
  unfold narrowed
  split
  · rename_i i hi
    right
    refine ⟨i, rfl, ?_⟩
    split at hi
    · rename_i hwhole
      obtain ⟨hfits, hi⟩ := Option.ite_none_right_eq_some.1 hi
      cases hi
      simp only [fitsInt64, Bool.and_eq_true, decide_eq_true_eq] at hwhole hfits
      have hvalue : (Int64.ofInt x.truncate).toInt = x.truncate :=
        Int64.toInt_ofInt_of_le (by omega) (by omega)
      exact ⟨hwhole.2, hvalue.symm⟩
    · nomatch hi
  · exact Or.inl rfl

end Accumulator

/-! ## Results -/

namespace Reducer

open Scalar (nonNull nonNull_nonNull isForeignNull)

/-- Sums and averages of integers are given as integers. -/
def isNarrowing : Reducer → Bool
  | statistic .sum | statistic .average => true
  | _ => false

theorem isCount_accumulator {r : Reducer} (hr : r ≠ .statistic .count) :
    r.accumulator.state.isCount = false := by
  cases r with
  | statistic s =>
    cases s with
    | count => exact absurd rfl hr
    | _ => rfl
  | _ => rfl

/-- Only sums and averages have the state of one. -/
theorem isSome_whole?_run (r : Reducer) (xs : List Scalar) :
    (r.run xs).state.whole?.isSome = r.isNarrowing := by
  by_cases hr : r = .statistic .count
  · subst hr
    unfold run
    rw [Accumulator.state_foldl_count xs rfl]
    rfl
  · unfold run
    rw [Accumulator.state_foldl (isCount_accumulator hr)]
    generalize nonNull xs = ys
    have hstart : r.accumulator.state.whole?.isSome = r.isNarrowing := by
      cases r with
      | statistic s => cases s <;> rfl
      | _ => rfl
    rw [← hstart]
    generalize r.accumulator.state = s
    induction ys generalizing s with
    | nil => rfl
    | cons v ys ih => rw [List.foldl_cons, ih, Accumulator.State.isSome_whole?_push]

/-- A result is a narrowed number for a sum or an average, and depends on the state alone for the
others. -/
theorem finishWith_eq (r : Reducer) (emptyExtreme : Scalar) (a : Accumulator) :
    r.finishWith emptyExtreme a =
      match a.state.whole? with
      | some x => Accumulator.narrowed x a.integerOnly
      | none => r.finishWith emptyExtreme ⟨a.state, true⟩ := by
  obtain ⟨state, integerOnly⟩ := a
  cases state <;> rfl

theorem state_run_nonNull {r : Reducer} (hr : r ≠ .statistic .count) (xs : List Scalar) :
    (r.run (nonNull xs)).state = (r.run xs).state := by
  unfold run
  rw [Accumulator.state_foldl (isCount_accumulator hr),
    Accumulator.state_foldl (isCount_accumulator hr), nonNull_nonNull]

/-- Nulls make the flag false if one of them is foreign. -/
theorem integerOnly_run {r : Reducer} (hr : r ≠ .statistic .count) (xs : List Scalar) :
    (r.run xs).integerOnly = ((r.run (nonNull xs)).integerOnly && ! xs.any isForeignNull) := by
  unfold run
  rw [Accumulator.integerOnly_foldl (isCount_accumulator hr),
    Accumulator.integerOnly_foldl (isCount_accumulator hr), Scalar.all_accepts, Bool.and_assoc]

/-- What the nulls of a list change in its reduction: nothing, unless a foreign one is summed or
averaged.  Then the result is a double, where without the nulls it is this double or the integer
equal to it. -/
structure ExcludesNulls (r : Reducer) (reduce : List Scalar → Scalar) (xs : List Scalar) :
    Prop where
  same : ¬ (r.isNarrowing = true ∧ ∃ v ∈ xs, v.isForeignNull = true) →
    reduce xs = reduce (nonNull xs)
  widened : r.isNarrowing = true → (∃ v ∈ xs, v.isForeignNull = true) →
    ∃ x, reduce xs = .number x ∧
      (reduce (nonNull xs) = .number x ∨
        ∃ i, reduce (nonNull xs) = .integer i ∧ x.isIntegral = true ∧ x.truncate = i.toInt)

theorem excludesNulls {r : Reducer} (hr : r ≠ .statistic .count) (emptyExtreme : Scalar)
    (xs : List Scalar) :
    r.ExcludesNulls (fun ys => r.finishWith emptyExtreme (r.run ys)) xs := by
  have hwhole := isSome_whole?_run r xs
  have hflag := integerOnly_run hr xs
  have hresult := finishWith_eq r emptyExtreme (r.run xs)
  have hnonNull := finishWith_eq r emptyExtreme (r.run (nonNull xs))
  rw [state_run_nonNull hr] at hnonNull
  cases hstate : (r.run xs).state.whole? with
  | none =>
    rw [hstate] at hresult hnonNull hwhole
    constructor
    case same => exact fun _ => hresult.trans hnonNull.symm
    case widened =>
      intro hnarrowing
      simp [hnarrowing] at hwhole
  | some x =>
    rw [hstate] at hresult hnonNull hwhole
    have hnarrowing : r.isNarrowing = true := hwhole.symm
    constructor
    case same =>
      intro hforeign
      have hnone : xs.any isForeignNull = false := by simpa [hnarrowing] using hforeign
      have hsame : (r.run xs).integerOnly = (r.run (nonNull xs)).integerOnly := by
        simp [hflag, hnone]
      exact (hresult.trans (by rw [hsame])).trans hnonNull.symm
    case widened =>
      intro _ hforeign
      have hany : xs.any isForeignNull = true := List.any_eq_true.2 hforeign
      have hfalse : (r.run xs).integerOnly = false := by simp [hflag, hany]
      refine ⟨x, ?_, ?_⟩
      · exact hresult.trans (by rw [hfalse]; rfl)
      · rw [hnonNull]
        exact Accumulator.narrowed_cases x _

end Reducer

theorem Reducer.run_count (xs : List Scalar) :
    ((Reducer.statistic .count).run xs).state = .count xs.length := by
  have hrun := Accumulator.state_foldl_count xs (a := (Reducer.statistic .count).accumulator) rfl
  rwa [Nat.zero_add] at hrun

/-- Every reducer but the count gives the same for a list with nulls anywhere in it and for the list
without them, in the analytic and in the aggregate form, unless a null of a domain that no integer
goes into is summed or averaged.  The count of a list is its full length. -/
theorem nulls_excluded (xs : List Scalar) :
    (∀ r : Reducer, r ≠ .statistic .count → r.ExcludesNulls r.reduce xs) ∧
      (∀ s : Statistic, s ≠ .count → (Reducer.statistic s).ExcludesNulls s.reduce xs) ∧
      (Reducer.statistic .count).reduce xs = .integer (Int64.ofNat xs.length) ∧
      Statistic.count.reduce xs = .integer (Int64.ofNat xs.length) ∧
      (xs.length < 2 ^ 63 → (Int64.ofNat xs.length).toInt = xs.length) := by
  refine ⟨fun r hr => Reducer.excludesNulls hr _ xs, fun s hs => ?_, ?_, ?_, ?_⟩
  · exact Reducer.excludesNulls (fun h => hs (Reducer.statistic.inj h)) _ xs
  · simp [Reducer.reduce, Reducer.finish, Reducer.finishWith, Reducer.run_count]
  · simp [Statistic.reduce, Statistic.finish, Reducer.finishWith, Reducer.run_count]
  · exact Int64.toInt_ofNat_of_lt

/-- A null integer does not change a sum, and a null number gives it as a double. -/
theorem nulls_excluded_sum :
    Statistic.sum.reduce [.integer 1, .null .integer] = Statistic.sum.reduce [.integer 1] ∧
      Statistic.sum.reduce [.integer 1] = .integer 1 ∧
      (∃ x, Statistic.sum.reduce [.integer 1, .null .number] = .number x ∧ x.truncate = 1) ∧
      Statistic.count.reduce [.integer 1, .null .number] = .integer 2 := by
  have hnative := (nulls_excluded [.integer 1, .null .integer]).2.1 .sum (by decide)
  have hforeign := (nulls_excluded [.integer 1, .null .number]).2.1 .sum (by decide)
  have hsum : Statistic.sum.reduce [.integer 1] = .integer 1 := by decide +kernel
  refine ⟨hnative.same (by decide), hsum, ?_, (nulls_excluded _).2.2.2.1⟩
  obtain ⟨x, hx, hwithout⟩ := hforeign.widened rfl ⟨.null .number, by decide, rfl⟩
  refine ⟨x, hx, ?_⟩
  rcases hwithout with hnumber | ⟨i, hi, -, htruncate⟩
  · exact Scalar.noConfusion (hsum.symm.trans hnumber)
  · cases hsum.symm.trans hi
    exact htruncate

end DataCube
