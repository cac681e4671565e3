import DataCube.Proofs.ExactSums
import DataCube.Proofs.NullExclusion

/-!
# Sums of integers shared over slices

A sum of integers is added up in doubles.  The count that an average divides by and the decision
that the result may be an integer do not depend on how the input is cut into slices, so all that can
differ is the total: every cut adds in another grouping.  Where no sum of neighbours has to be
rounded, all groupings have the same total.

* `Accumulator.numbers`, `Accumulator.splitTotal`: what is added up, and the total of slices.
* `Reducer.runSplit_sum`, `Reducer.runSplit_average`: the accumulators in these terms.
* `Accumulator.splitTotal_eq`: the total where no sum is rounded.
* `split_integer_sums`: what sums and averages owe to the slices.
-/

namespace DataCube

namespace Accumulator

open Scalar (nonNull)

/-! ## Totals -/

/-- The numbers of the scalars that are not null. -/
def numbers (values : List Scalar) : List Binary64 := (nonNull values).map numberOf

/-- The totals of the slices, added up as the slices are joined. -/
def splitTotal (values : Split Scalar) : Binary64 :=
  values.reduce (fun slice => (numbers slice).foldl (· + ·) 0) (· + ·)

theorem numbers_append (xs ys : List Scalar) : numbers (xs ++ ys) = numbers xs ++ numbers ys := by
  unfold numbers nonNull
  rw [List.filter_append, List.map_append]

/-- Where no sum of neighbours has to be rounded, the total is the exact sum. -/
theorem splitTotal_eq (values : Split Scalar)
    (h : Binary64.ExactSums (numbers values.toList)) :
    splitTotal values = .ofScaled false (Binary64.exactSum (numbers values.toList)) := by
  induction values with
  | slice xs => exact h.foldl_add
  | join left right hleft hright =>
    rw [Split.toList, numbers_append] at h ⊢
    have hl := hleft (h.of_infix (List.prefix_append _ _).isInfix)
    have hr := hright (h.of_infix (List.suffix_append _ _).isInfix)
    rw [← h.ofScaled_append, ← hl, ← hr]
    rfl

/-! ## States -/

theorem foldl_push_sum (vs : List Scalar) (total : Binary64) :
    vs.foldl (fun s v => s.push v) (State.sum total) =
      .sum ((vs.map numberOf).foldl (· + ·) total) := by
  induction vs generalizing total with
  | nil => rfl
  | cons v vs ih => exact ih (total + numberOf v)

theorem foldl_push_average (vs : List Scalar) (total : Binary64) (n : Nat) :
    vs.foldl (fun s v => s.push v) (State.average total n) =
      .average ((vs.map numberOf).foldl (· + ·) total) (n + vs.length) := by
  induction vs generalizing total n with
  | nil => rfl
  | cons v vs ih =>
    rw [List.foldl_cons, State.push, ih, List.length_cons, Nat.add_assoc, Nat.add_comm 1]
    rfl

end Accumulator

namespace Reducer

open Accumulator (State numbers splitTotal)

/-- The state of a sum is the total. -/
theorem state_runSplit_sum (values : Split Scalar) :
    ((statistic .sum).runSplit values).state = .sum (splitTotal values) := by
  induction values with
  | slice xs =>
    show ((statistic .sum).run xs).state = _
    rw [run, Accumulator.state_foldl rfl]
    exact Accumulator.foldl_push_sum _ 0
  | join left right hleft hright =>
    show State.combine ((statistic .sum).runSplit left).state
      ((statistic .sum).runSplit right).state = _
    rw [hleft, hright]
    rfl

/-- The state of an average is the total and how many numbers went into it. -/
theorem state_runSplit_average (values : Split Scalar) :
    ((statistic .average).runSplit values).state =
      .average (splitTotal values) (numbers values.toList).length := by
  induction values with
  | slice xs =>
    show ((statistic .average).run xs).state = _
    rw [run, Accumulator.state_foldl rfl]
    refine (Accumulator.foldl_push_average _ 0 0).trans ?_
    rw [Nat.zero_add, Split.toList, numbers, List.length_map]
    rfl
  | join left right hleft hright =>
    show State.combine ((statistic .average).runSplit left).state
      ((statistic .average).runSplit right).state = _
    rw [hleft, hright, Split.toList, Accumulator.numbers_append, List.length_append]
    rfl

/-- Scalars of the integer domain leave the result to be an integer. -/
theorem integerOnly_runSplit {r : Reducer} (hr : r ≠ .statistic .count) {values : Split Scalar}
    (h : ∀ v ∈ values.toList, v.domain = .integer) : (r.runSplit values).integerOnly = true := by
  induction values with
  | slice xs =>
    have hall : (xs.all fun v => Domain.integer.accepts v.domain) = true :=
      List.all_eq_true.2 fun v hv => by rw [h v hv]; rfl
    show (r.run xs).integerOnly = true
    rw [run, Accumulator.integerOnly_foldl (isCount_accumulator hr), hall]
    rfl
  | join left right hleft hright =>
    obtain ⟨hl, hr⟩ := List.forall_mem_append.1 h
    show ((r.runSplit left).integerOnly && (r.runSplit right).integerOnly) = true
    rw [hleft hl, hright hr]
    rfl

theorem runSplit_sum (values : Split Scalar) (h : ∀ v ∈ values.toList, v.domain = .integer) :
    (statistic .sum).runSplit values = ⟨.sum (splitTotal values), true⟩ := by
  have hflag : ((statistic .sum).runSplit values).integerOnly = true :=
    integerOnly_runSplit (by decide) h
  rw [← state_runSplit_sum, ← hflag]

theorem runSplit_average (values : Split Scalar) (h : ∀ v ∈ values.toList, v.domain = .integer) :
    (statistic .average).runSplit values =
      ⟨.average (splitTotal values) (numbers values.toList).length, true⟩ := by
  have hflag : ((statistic .average).runSplit values).integerOnly = true :=
    integerOnly_runSplit (by decide) h
  rw [← state_runSplit_average, ← hflag]

/-- Where no sum of neighbours has to be rounded, a pass over slices ends as a single pass does. -/
theorem runSplit_eq_run_of_exactSums {s : Statistic} (hs : s = .sum ∨ s = .average)
    {values : Split Scalar} (h : ∀ v ∈ values.toList, v.domain = .integer)
    (hexact : Binary64.ExactSums (numbers values.toList)) :
    (statistic s).runSplit values = (statistic s).run values.toList := by
  -- a single pass is one over a single slice
  let whole : Split Scalar := .slice values.toList
  have htotal : splitTotal values = splitTotal whole :=
    (Accumulator.splitTotal_eq values hexact).trans (Accumulator.splitTotal_eq whole hexact).symm
  show (statistic s).runSplit values = (statistic s).runSplit whole
  rcases hs with rfl | rfl
  · rw [runSplit_sum values h, runSplit_sum whole h, htotal]
  · rw [runSplit_average values h, runSplit_average whole h, htotal]
    rfl

end Reducer

/-! ## Integers -/

/-- The integers of a list of scalars. -/
def Scalar.integersOf (values : List Scalar) : List Int :=
  values.filterMap fun v => v.integer?.map Int64.toInt

theorem Accumulator.numbers_eq {values : List Scalar} (h : ∀ v ∈ values, v.domain = .integer) :
    numbers values = (Scalar.integersOf values).map Binary64.ofInt := by
  unfold numbers Scalar.nonNull Scalar.integersOf
  induction values with
  | nil => rfl
  | cons v values ih =>
    obtain ⟨hv, hvalues⟩ := List.forall_mem_cons.1 h
    cases v with
    | integer i => exact congrArg (Binary64.ofInt i.toInt :: ·) (ih hvalues)
    | null d => exact ih hvalues
    | _ => nomatch hv

/-- An integer of at most 53 bits is given as itself. -/
theorem Accumulator.narrowed_ofScaled {i : Int} (h : i.natAbs ≤ 2 ^ 53) :
    narrowed (.ofScaled false (i * Binary64.unitsPerOne)) true = .integer (Int64.ofInt i) := by
  have hrepresentable := Binary64.representable_of_natAbs_le h
  have hpos : (Binary64.unitsPerOne : Int) ≠ 0 :=
    Int.natCast_ne_zero.2 Binary64.unitsPerOne_pos.ne'
  have hwhole : (Binary64.ofScaled false (i * Binary64.unitsPerOne)).isIntegral = true := by
    rw [Binary64.isIntegral, hrepresentable.isFinite_ofScaled, hrepresentable.scaled_ofScaled,
      Int.mul_emod_left]
    rfl
  have htruncate : (Binary64.ofScaled false (i * Binary64.unitsPerOne)).truncate = i := by
    rw [Binary64.truncate, hrepresentable.scaled_ofScaled, Int.mul_tdiv_cancel i hpos]
  have hfits : fitsInt64 i = true := by
    simp only [fitsInt64, Bool.and_eq_true, decide_eq_true_eq]
    omega
  unfold narrowed exactInt64?
  rw [hwhole, htruncate, hfits]
  rfl

/-- However integers are cut into slices, sums and averages are made of the same count and the same
decision to give integers; only the total is added up in another grouping.  Where no sum of
neighbours has to be rounded, this makes no difference, in neither form.  In particular integers
whose sizes add up to at most `2 ^ 53` have their exact sum. -/
theorem split_integer_sums (values : Split Scalar)
    (hvalues : ∀ v ∈ values.toList, v.domain = .integer) :
    ((Reducer.statistic .sum).runSplit values = ⟨.sum (Accumulator.splitTotal values), true⟩ ∧
      (Reducer.statistic .average).runSplit values =
        ⟨.average (Accumulator.splitTotal values) (Scalar.integersOf values.toList).length, true⟩) ∧
    (Binary64.ExactSums ((Scalar.integersOf values.toList).map Binary64.ofInt) →
      ∀ s : Statistic, s = .sum ∨ s = .average →
        s.reduceSplit values = s.reduce values.toList ∧
        (Reducer.statistic s).reduceSplit values = (Reducer.statistic s).reduce values.toList) ∧
    (((Scalar.integersOf values.toList).map Int.natAbs).sum ≤ 2 ^ 53 →
      Binary64.ExactSums ((Scalar.integersOf values.toList).map Binary64.ofInt) ∧
      Statistic.sum.reduceSplit values =
        .integer (Int64.ofInt (Scalar.integersOf values.toList).sum)) := by
  have hnumbers := Accumulator.numbers_eq hvalues
  refine ⟨⟨Reducer.runSplit_sum values hvalues, ?_⟩, ?_, ?_⟩
  · rw [Reducer.runSplit_average values hvalues, hnumbers, List.length_map]
  · intro hexact s hs
    rw [← hnumbers] at hexact
    have hrun := Reducer.runSplit_eq_run_of_exactSums hs hvalues hexact
    exact ⟨congrArg s.finish hrun, congrArg (Reducer.statistic s).finish hrun⟩
  · intro hsize
    have hexact := Binary64.exactSums_ofInt hsize
    refine ⟨hexact, ?_⟩
    have hmem : ∀ i ∈ Scalar.integersOf values.toList, i.natAbs ≤ 2 ^ 53 := fun i hi =>
      (List.single_le_sum (fun _ _ => Nat.zero_le _) _ (List.mem_map_of_mem hi)).trans hsize
    have htotal : Accumulator.splitTotal values =
        .ofScaled false ((Scalar.integersOf values.toList).sum * Binary64.unitsPerOne) := by
      rw [← Binary64.exactSum_map_ofInt hmem, ← hnumbers]
      exact Accumulator.splitTotal_eq values (hnumbers ▸ hexact)
    have hrun := Reducer.runSplit_sum values hvalues
    rw [htotal] at hrun
    calc Statistic.sum.reduceSplit values
        = Statistic.sum.finish ((Reducer.statistic .sum).runSplit values) := rfl
      _ = Accumulator.narrowed
            (.ofScaled false ((Scalar.integersOf values.toList).sum * Binary64.unitsPerOne)) true :=
          congrArg Statistic.sum.finish hrun
      _ = .integer (Int64.ofInt (Scalar.integersOf values.toList).sum) :=
          Accumulator.narrowed_ofScaled ((Binary64.natAbs_sum_le _).trans hsize)

/-- Three integers and a null, cut after the null. -/
def shortSlices : Split Scalar :=
  .join (.slice [.integer 3, .null .integer])
    (.join (.slice []) (.slice [.integer (-5), .integer 8]))

theorem split_integer_sums_short :
    (∀ v ∈ shortSlices.toList, v.domain = .integer) ∧
      ((Scalar.integersOf shortSlices.toList).map Int.natAbs).sum ≤ 2 ^ 53 ∧
      Statistic.sum.reduceSplit shortSlices = .integer 6 ∧
      Statistic.average.reduceSplit shortSlices = .integer 2 := by
  have hvalues : ∀ v ∈ shortSlices.toList, v.domain = .integer := by decide
  have hsize : ((Scalar.integersOf shortSlices.toList).map Int.natAbs).sum ≤ 2 ^ 53 := by decide
  obtain ⟨-, hsplit, hshort⟩ := split_integer_sums shortSlices hvalues
  obtain ⟨hexact, hsum⟩ := hshort hsize
  refine ⟨hvalues, hsize, hsum, ?_⟩
  rw [(hsplit hexact .average (Or.inr rfl)).1]
  decide +kernel

/-- Beyond 53 bits a slice of two ones adds up to a two, where one by one they are rounded away. -/
theorem split_integer_sums_rounded :
    Statistic.sum.reduceSplit
        (.join (.slice [.integer 9007199254740992]) (.slice [.integer 1, .integer 1])) =
      .integer 9007199254740994 ∧
      Statistic.sum.reduce [.integer 9007199254740992, .integer 1, .integer 1] =
        .integer 9007199254740992 := by
  decide +kernel

end DataCube
