import DataCube.Window
import DataCube.Proofs.Rows
import DataCube.Proofs.Safety.Drafts
import DataCube.Proofs.Typing.Precision
import DataCube.Proofs.WholeSums

/-!
# Reducing values of one domain

The values of a measure all have its domain.  What a reducer makes of such values goes into a column
of the domain that typing finds for the result, with one exception: the aggregate form gives a sum
of integers as a number once no 64-bit integer equals it.  The analytic form casts that number back,
which succeeds because a sum of integers in doubles stays a whole number.

* `Reducer.Keeps d r s`: what holds of the state of a reducer that has seen values of a domain.
  Every step preserves it, so it holds at the end of every run.
* `Statistic.accepts_finish`: the result of the aggregate form.  `Statistic.reduceRows_sum` says
  when a sum of integers is a number.
* `Reducer.exists_fit_finish`: the result of the analytic form.
-/

namespace DataCube

open Accumulator (State)

namespace Reducer

/-- The state is of the kind that the reducer starts with, what it keeps of the values has their
domain, and a total of integers is a whole number. -/
inductive Keeps (d : Domain) : Reducer → State → Prop where
  | count (n : Nat) : Keeps d (.statistic .count) (.count n)
  | sum {total : Binary64} : (d = .integer → total.Moderate) →
      Keeps d (.statistic .sum) (.sum total)
  | average (total : Binary64) (n : Nat) : Keeps d (.statistic .average) (.average total n)
  | median (values : List Binary64) : Keeps d (.statistic .median) (.median values)
  | least {value : Option Scalar} : (∀ v, value = some v → v.domain = d) →
      Keeps d (.statistic .least) (.least value)
  | greatest {value : Option Scalar} : (∀ v, value = some v → v.domain = d) →
      Keeps d (.statistic .greatest) (.greatest value)
  | moments {s : Statistic} (m : Moments Binary64) :
      (Reducer.statistic s).initialState = .moments .empty → Keeps d (.statistic s) (.moments m)
  | first {value : Option Scalar} : (∀ v, value = some v → v.domain = d) →
      Keeps d .firstValue (.first value)
  | last {value : Option Scalar} : (∀ v, value = some v → v.domain = d) →
      Keeps d .lastValue (.last value)

variable {d : Domain} {r : Reducer}

/-! ## Runs -/

theorem keeps_initialState (d : Domain) (r : Reducer) : r.Keeps d r.initialState := by
  cases r with
  | statistic s =>
    cases s with
    | count => exact .count 0
    | sum => exact .sum fun _ => Binary64.moderate_zero
    | average => exact .average 0 0
    | median => exact .median []
    | least => exact .least fun _ h => nomatch h
    | greatest => exact .greatest fun _ h => nomatch h
    | _ => exact .moments _ rfl
  | firstValue => exact .first fun _ h => nomatch h
  | lastValue => exact .last fun _ h => nomatch h

/-- The better of two values of a domain has the domain. -/
theorem domain_of_prefer {wanted : Ordering} {present : Option Scalar} {v w : Scalar}
    (hpresent : ∀ p, present = some p → p.domain = d) (hv : v.domain = d)
    (h : Accumulator.prefer wanted present v = some w) : w.domain = d := by
  unfold Accumulator.prefer at h
  cases present with
  | none => exact Option.some.inj h ▸ hv
  | some p =>
    simp only at h
    split at h
    · exact Option.some.inj h ▸ hv
    · exact Option.some.inj h ▸ hpresent p rfl

/-- An integer is within the range of 64 bits. -/
theorem natAbs_toInt_le (i : Int64) : i.toInt.natAbs ≤ 2 ^ 63 := by
  have hlow := Int64.le_toInt i
  have hhigh := Int64.toInt_lt i
  omega

theorem Keeps.push {s : State} (h : r.Keeps d s) {v : Scalar} (hv : v.domain = d)
    (hnull : v.isNull = false) : r.Keeps d (s.push v) := by
  cases h with
  | count n => exact .count (n + 1)
  | @sum total htotal =>
    refine .sum fun hd => ?_
    subst hd
    cases v with
    | integer i => exact Binary64.moderate_add (htotal rfl) (natAbs_toInt_le i)
    | null found => nomatch hnull
    | _ => nomatch hv
  | average total n => exact .average _ _
  | median values => exact .median _
  | least hvalue => exact .least fun w hw => domain_of_prefer hvalue hv hw
  | greatest hvalue => exact .greatest fun w hw => domain_of_prefer hvalue hv hw
  | moments m hs => exact .moments _ hs
  | @first value hvalue =>
    refine .first fun w hw => ?_
    cases value with
    | none => exact Option.some.inj hw ▸ hv
    | some p => exact hvalue w hw
  | last hvalue => exact .last fun w hw => Option.some.inj hw ▸ hv

theorem Keeps.accumulate {a : Accumulator} (h : r.Keeps d a.state) {value : Option Scalar}
    (hvalue : ∀ v, value = some v → v.domain = d) : r.Keeps d (a.accumulate value).state := by
  unfold Accumulator.accumulate
  split
  · rename_i n hstate
    rw [hstate] at h
    cases h
    exact .count (n + 1)
  · exact h
  · rename_i v _
    cases hnull : v.isNull with
    | true => exact h
    | false => exact h.push (hvalue v rfl) hnull

/-- Integers leave the result to be an integer. -/
theorem integerOnly_accumulate {a : Accumulator} (h : a.integerOnly = true) {value : Option Scalar}
    (hvalue : ∀ v, value = some v → v.domain = .integer) :
    (a.accumulate value).integerOnly = true := by
  unfold Accumulator.accumulate
  split
  · exact h
  · exact h
  · rename_i v _
    rw [h, hvalue v rfl]
    rfl

/-! ## Rows -/

variable {m : Component}

/-- A reducer reads a value of the domain of the measure. -/
theorem domain_of_extract {row : Row} (hrow : ∀ v, row.get? m.name = some v → v.domain = m.domain)
    {v : Scalar} (h : r.extract m row = some v) : v.domain = m.domain := by
  unfold extract at h
  split at h
  · nomatch h
  · rw [← Option.some.inj h]
    cases hget : row.get? m.name with
    | none => rfl
    | some w => exact hrow w hget

theorem Keeps.foldl {a : Accumulator} (h : r.Keeps m.domain a.state) {rows : List Row}
    (hrows : ∀ row ∈ rows, ∀ v, row.get? m.name = some v → v.domain = m.domain) :
    r.Keeps m.domain (rows.foldl (fun a row => a.accumulate (r.extract m row)) a).state := by
  induction rows generalizing a with
  | nil => exact h
  | cons row rows ih =>
    obtain ⟨hrow, hrest⟩ := List.forall_mem_cons.1 hrows
    exact ih (h.accumulate fun v hv => domain_of_extract hrow hv) hrest

theorem keeps_runRows {rows : List Row}
    (hrows : ∀ row ∈ rows, ∀ v, row.get? m.name = some v → v.domain = m.domain) :
    r.Keeps m.domain (r.runRows m rows).state :=
  (keeps_initialState m.domain r).foldl hrows

theorem integerOnly_foldl (hm : m.domain = .integer) {a : Accumulator} (h : a.integerOnly = true)
    {rows : List Row} (hrows : ∀ row ∈ rows, ∀ v, row.get? m.name = some v → v.domain = m.domain) :
    (rows.foldl (fun a row => a.accumulate (r.extract m row)) a).integerOnly = true := by
  induction rows generalizing a with
  | nil => exact h
  | cons row rows ih =>
    obtain ⟨hrow, hrest⟩ := List.forall_mem_cons.1 hrows
    refine ih (integerOnly_accumulate h fun v hv => ?_) hrest
    rw [domain_of_extract hrow hv, hm]

/-- Each result of a running reduction is that of some state. -/
theorem Keeps.running {a : Accumulator} (h : r.Keeps m.domain a.state) {rows : List Row}
    (hrows : ∀ row ∈ rows, ∀ v, row.get? m.name = some v → v.domain = m.domain) {v : Scalar}
    (hv : v ∈ r.running m a rows) :
    ∃ b : Accumulator, r.Keeps m.domain b.state ∧ v = r.finish b := by
  induction rows generalizing a with
  | nil => nomatch hv
  | cons row rows ih =>
    obtain ⟨hrow, hrest⟩ := List.forall_mem_cons.1 hrows
    have hnext : r.Keeps m.domain (a.accumulate (r.extract m row)).state :=
      h.accumulate fun v hv => domain_of_extract hrow hv
    rcases List.mem_cons.1 hv with hv | hv
    · exact ⟨_, hnext, hv⟩
    · exact ih hnext hrest hv

theorem keeps_column {isRunning : Bool} {rows : List Row}
    (hrows : ∀ row ∈ rows, ∀ v, row.get? m.name = some v → v.domain = m.domain) {v : Scalar}
    (hv : v ∈ r.column isRunning rows m) :
    ∃ b : Accumulator, r.Keeps m.domain b.state ∧ v = r.finish b := by
  unfold column at hv
  split at hv
  · exact (keeps_initialState m.domain r).running hrows hv
  · exact ⟨_, keeps_runRows hrows, List.eq_of_mem_replicate hv⟩

/-! ## Results -/

/-- A narrowed number is an integer or a number. -/
theorem domain_narrowed (x : Binary64) (integerOnly : Bool) :
    (∃ i, Accumulator.narrowed x integerOnly = .integer i) ∨
      Accumulator.narrowed x integerOnly = .number x := by
  unfold Accumulator.narrowed
  split
  · exact Or.inl ⟨_, rfl⟩
  · exact Or.inr rfl

/-- A number column takes what becomes of a narrowed number. -/
theorem accepts_narrowed (x : Binary64) (integerOnly : Bool) :
    Domain.number.accepts (Accumulator.narrowed x integerOnly).domain = true := by
  rcases domain_narrowed x integerOnly with ⟨i, h⟩ | h
  · rw [h]
    rfl
  · rw [h]
    rfl

theorem accepts_getD {value : Option Scalar} (h : ∀ v, value = some v → v.domain = d)
    {other : Scalar} (hother : d.accepts other.domain = true) :
    d.accepts (value.getD other).domain = true := by
  cases value with
  | none => exact hother
  | some v =>
    rw [Option.getD_some, h v rfl]
    exact Domain.accepts_self d

end Reducer

/-- The result of the aggregate form goes into a column of the domain it is typed with, but for a
sum of integers that is given as a number. -/
theorem Statistic.accepts_finish {s : Statistic} {a : Accumulator} {d d' : Domain}
    (h : (Reducer.statistic s).Keeps d a.state) (hd' : s.outputDomain? d = .ok d') :
    d'.accepts (s.finish a).domain = true ∨
      s = .sum ∧ d' = .integer ∧ (s.finish a).domain = .number := by
  obtain ⟨state, integerOnly⟩ := a
  have hd' := Reducer.resultDomain?_eq_ok.1 hd'
  cases h with
  | count n => exact Or.inl (hd' ▸ rfl)
  | @sum total htotal =>
    obtain ⟨-, rfl⟩ := hd'
    show Domain.accepts _ (Accumulator.narrowed total integerOnly).domain = true ∨
      _ ∧ _ ∧ (Accumulator.narrowed total integerOnly).domain = .number
    by_cases hd : d = .integer
    · subst hd
      rcases Reducer.domain_narrowed total integerOnly with ⟨i, hi⟩ | hx
      · exact Or.inl (by rw [hi]; rfl)
      · exact Or.inr ⟨rfl, rfl, by rw [hx]; rfl⟩
    · unfold Reducer.numericDomain
      simp only [hd, decide_false, Bool.and_false, Bool.false_eq_true, if_false]
      exact Or.inl (Reducer.accepts_narrowed total integerOnly)
  | average total n =>
    obtain ⟨-, rfl⟩ := hd'
    exact Or.inl (Reducer.accepts_narrowed _ integerOnly)
  | median values =>
    obtain ⟨-, rfl⟩ := hd'
    exact Or.inl rfl
  | least hvalue => exact Or.inl (hd' ▸ Reducer.accepts_getD hvalue (Domain.accepts_null d))
  | greatest hvalue => exact Or.inl (hd' ▸ Reducer.accepts_getD hvalue (Domain.accepts_null d))
  | moments m hs =>
    refine Or.inl ?_
    cases s with
    | varPop | varSamp | stddevPop | stddevSamp =>
      obtain ⟨-, rfl⟩ := hd'
      rfl
    | _ => nomatch hs

/-- The sum of a measure of integers in doubles, as it is given: an integer if 64 bits hold it. -/
theorem Statistic.reduceRows_sum {m : Component} {rows : List Row} (hm : m.domain = .integer)
    (hrows : ∀ row ∈ rows, ∀ v, row.get? m.name = some v → v.domain = m.domain) :
    ∃ total : Binary64, ((Reducer.statistic .sum).runRows m rows).state = .sum total ∧
      Statistic.sum.reduceRows m rows =
        if fitsInt64 total.truncate then .integer (Int64.ofInt total.truncate)
        else .number total := by
  have hkeeps := Reducer.keeps_runRows (r := .statistic .sum) hrows
  have hinteger : ((Reducer.statistic .sum).runRows m rows).integerOnly = true :=
    Reducer.integerOnly_foldl hm rfl hrows
  unfold reduceRows finish
  generalize (Reducer.statistic .sum).runRows m rows = a at hkeeps hinteger
  obtain ⟨state, integerOnly⟩ := a
  cases hkeeps with
  | @sum total htotal =>
    refine ⟨total, rfl, ?_⟩
    show Accumulator.narrowed total integerOnly = _
    unfold Accumulator.narrowed exactInt64?
    rw [show integerOnly = true from hinteger, (htotal hm).isIntegral]
    cases fitsInt64 total.truncate <;> rfl
  | moments _ hs => nomatch hs

namespace Reducer

variable {d d' : Domain}

/-! ## Columns -/

/-- A column takes what its domain accepts. -/
theorem exists_fit {v : Scalar} (h : d.accepts v.domain = true) (hd : d ≠ .unknown) :
    ∃ w, fit v d = .ok w ∧ w.domain = d := by
  cases v with
  | number x =>
    have haccepts : d.accepts .number = true := h
    unfold fit
    simp only [haccepts, Bool.not_true, Bool.and_false, Bool.false_eq_true, if_false]
    exact Domain.exists_cast h hd
  | _ => exact Domain.exists_cast h hd

theorem exists_fit_null {found : Domain} (hd : d ≠ .unknown) :
    ∃ w, fit (.null found) d = .ok w ∧ w.domain = d :=
  ⟨.null d, Scalar.cast_null found hd, rfl⟩

/-- The extreme of nothing has a place in every column. -/
theorem exists_fit_nan (hd : d ≠ .unknown) : ∃ w, fit (.number .nan) d = .ok w ∧ w.domain = d := by
  cases h : d.accepts .number with
  | true => exact exists_fit h hd
  | false =>
    refine ⟨.null d, ?_, rfl⟩
    unfold fit
    rw [h]
    rfl

/-- A whole number has a place in a column of integers. -/
theorem exists_fit_whole {x : Binary64} (h : x.Moderate) :
    ∃ w, fit (.number x) .integer = .ok w ∧ w.domain = .integer := by
  have hcast : (Scalar.number x).cast .integer = .ok (.integer (clampInt64 x.truncate)) :=
    if_pos h.isIntegral
  refine ⟨.integer (clampInt64 x.truncate), ?_, rfl⟩
  simp only [fit, h.isNaN, Bool.false_and, Bool.false_eq_true, if_false]
  exact hcast

theorem exists_fit_getD {value : Option Scalar}
    (h : ∀ v, value = some v → v.domain = d) (haccepts : d'.accepts d = true)
    (hd' : d' ≠ .unknown) : ∃ w, fit (value.getD (.number .nan)) d' = .ok w ∧ w.domain = d' := by
  cases value with
  | none => exact exists_fit_nan hd'
  | some v => exact exists_fit (by rw [Option.getD_some, h v rfl]; exact haccepts) hd'

/-- The extremes of a measure are typed with a domain that takes its values. -/
theorem accepts_of_extreme {s : Statistic} (hs : (statistic s).resultDomain? d = .ok d)
    (hd' : (if d.isNumeric then .ok .number else (statistic s).resultDomain? d) = .ok d') :
    d'.accepts d = true := by
  by_cases hd : d.isNumeric = true
  · rw [if_pos hd] at hd'
    cases hd'
    cases d <;> first | rfl | nomatch hd
  · rw [if_neg hd, hs] at hd'
    cases hd'
    exact Domain.accepts_self d

/-- Reducers over numbers have one result domain for both forms. -/
theorem numericDomain_of_outputDomain? {r : Reducer}
    (hr : r ∉ [.statistic .count, .statistic .least, .statistic .greatest, .firstValue, .lastValue])
    (h : r.outputDomain? d = .ok d') : r.numericDomain d = d' := by
  have hresult : r.resultDomain? d = .ok d' := by
    cases r with
    | statistic s => cases s <;> first | exact h | exact absurd (by decide) hr
    | _ => exact h
  have hdomain := resultDomain?_eq_ok.1 hresult
  split at hdomain
  all_goals first | exact hdomain.2 | exact absurd (by decide) hr

/-- The result of the analytic form goes into a column of the domain it is typed with. -/
theorem exists_fit_finish {r : Reducer} {a : Accumulator} (h : r.Keeps d a.state)
    (hd' : r.outputDomain? d = .ok d') (hknown : d' ≠ .unknown) :
    ∃ w, fit (r.finish a) d' = .ok w ∧ w.domain = d' := by
  obtain ⟨state, integerOnly⟩ := a
  cases h with
  | count n =>
    cases hd'
    exact exists_fit rfl hknown
  | @sum total htotal =>
    obtain rfl := numericDomain_of_outputDomain? (by decide) hd'
    show ∃ w, fit (Accumulator.narrowed total integerOnly) _ = .ok w ∧ _
    by_cases hd : d = .integer
    · subst hd
      rcases domain_narrowed total integerOnly with ⟨i, hi⟩ | hx
      · exact exists_fit (by rw [hi]; rfl) hknown
      · rw [hx]
        exact exists_fit_whole (htotal rfl)
    · have hnumber : (statistic .sum).numericDomain d = .number := by
        unfold numericDomain
        simp [hd]
      rw [hnumber]
      exact exists_fit (accepts_narrowed total integerOnly) (by decide)
  | average total n =>
    obtain rfl := numericDomain_of_outputDomain? (by decide) hd'
    exact exists_fit (accepts_narrowed _ integerOnly) hknown
  | median values =>
    obtain rfl := numericDomain_of_outputDomain? (by decide) hd'
    exact exists_fit rfl hknown
  | least hvalue => exact exists_fit_getD hvalue (accepts_of_extreme rfl hd') hknown
  | greatest hvalue => exact exists_fit_getD hvalue (accepts_of_extreme rfl hd') hknown
  | @moments s m hs =>
    cases s with
    | varPop | varSamp | stddevPop | stddevSamp =>
      obtain rfl := numericDomain_of_outputDomain? (by decide) hd'
      exact exists_fit rfl hknown
    | _ => nomatch hs
  | @first value hvalue | @last value hvalue =>
    cases hd'
    cases value with
    | none => exact exists_fit_null hknown
    | some v => exact exists_fit (by rw [← hvalue v rfl]; exact Domain.accepts_self _) hknown

/-- The results for the rows of a partition go into the column. -/
theorem exists_fit_column {r : Reducer} {m : Component} (isRunning : Bool) {rows : List Row}
    (hrows : ∀ row ∈ rows, ∀ v, row.get? m.name = some v → v.domain = m.domain)
    (hd' : r.outputDomain? m.domain = .ok d') (hknown : d' ≠ .unknown) (i : Nat) :
    ∃ w, fit ((r.column isRunning rows m).getD i (.null .null)) d' = .ok w ∧ w.domain = d' := by
  rw [List.getD_eq_getElem?_getD]
  cases hi : (r.column isRunning rows m)[i]? with
  | none => exact exists_fit_null hknown
  | some v =>
    obtain ⟨b, hb, hv⟩ := keeps_column hrows (List.mem_of_getElem? hi)
    rw [Option.getD_some, hv]
    exact exists_fit_finish hb hd' hknown

/-- Columns only ever refuse a value for its domain. -/
theorem mismatch_fit (v : Scalar) (d : Domain) :
    Outcome EvalError.IsMismatch (fun _ => True) (fit v d) := by
  unfold fit
  split
  · split
    · trivial
    · exact Scalar.outcome_cast _ d
  · exact Scalar.outcome_cast _ d

end Reducer

end DataCube
