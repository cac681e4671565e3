import DataCube.Proofs.ExactSums
import DataCube.Proofs.ReducedRows
import DataCube.Proofs.Safety.Groups
import DataCube.Proofs.Shifts

/-!
# Numbers in places for integers

A number is put in a place for integers in three ways: it is cast, it stands in for a measure in a
shift, or a reducer gives it for the rows of a window.  All of them come down to the cast, which
refuses a number with a fractional part.  A whole number is the integer equal to it if there is one.
Beyond the integers of 64 bits it is the one at that end.

* `Binary64.Narrowed`: what may become of a finite number.
* `Scalar.narrowed_cast`: this is what a cast makes of it.
* `Reducer.fit_of_isFinite`: reducers cast.  `Reducer.narrowedIn_runWindow` is about all rows that a
  reducer makes over a window.
* `Shift.outcome_run`: a shift with a number as default only fails because the number is refused.
* `narrowing`: the three ways.
-/

namespace DataCube

/-- What may become of a finite number in a place for integers. -/
inductive Binary64.Narrowed (x : Binary64) : Except EvalError Scalar → Prop where
  /-- The integer equal to the number. -/
  | exact {i : Int64} : x.scaled = i.toInt * unitsPerOne → Narrowed x (.ok (.integer i))
  /-- No integer is equal to the number, of any size. -/
  | fraction : (∀ k : Int, x.scaled ≠ k * unitsPerOne) →
      Narrowed x (.error (.incompatibleDomain (.castOf (.number x)) .integer .number))
  | above {k : Int} : x.scaled = k * unitsPerOne → 2 ^ 63 ≤ k →
      Narrowed x (.ok (.integer Int64.maxValue))
  | below {k : Int} : x.scaled = k * unitsPerOne → k < -2 ^ 63 →
      Narrowed x (.ok (.integer Int64.minValue))

/-- The number was refused in a place for values of some domain. -/
def Binary64.Refuses (x : Binary64) (e : EvalError) : Prop :=
  ∃ domain, e = .incompatibleDomain (.castOf (.number x)) domain .number

variable {x : Binary64}

/-! ## Casts -/

namespace Scalar

/-- Only a place for integers makes an integer of a number. -/
theorem domain_of_cast_number {domain : Domain} {i : Int64}
    (h : (number x).cast domain = .ok (.integer i)) : domain = .integer := by
  cases domain <;> first | rfl | cases h

theorem refuses_of_cast_number {domain : Domain} {e : EvalError}
    (h : (number x).cast domain = .error e) : x.Refuses e := by
  refine ⟨domain, ?_⟩
  cases domain with
  | number | unknown => cases h
  | integer =>
    simp only [cast] at h
    split at h
    · cases h
    · exact (Except.error.inj h).symm
  | null | boolean | string => exact (Except.error.inj h).symm

/-- The integer equal to an integer of 64 bits is itself, and any other is at one of the ends. -/
theorem narrowed_clamp {k : Int} (hk : x.scaled = k * Binary64.unitsPerOne) :
    x.Narrowed (.ok (.integer (clampInt64 k))) := by
  unfold clampInt64
  by_cases hlow : k < -0x8000000000000000
  · rw [if_pos hlow]
    exact .below hk hlow
  · rw [if_neg hlow]
    by_cases hhigh : k < 0x8000000000000000
    · rw [if_pos hhigh]
      refine .exact ?_
      rw [Int64.toInt_ofInt_of_le (by omega) (by omega)]
      exact hk
    · rw [if_neg hhigh]
      exact .above hk (not_lt.1 hhigh)

/-- What a cast makes of a finite number. -/
theorem narrowed_cast (hx : x.isFinite = true) : x.Narrowed ((number x).cast .integer) := by
  have hpos : (0 : Int) < Binary64.unitsPerOne := Int.natCast_pos.2 Binary64.unitsPerOne_pos
  show x.Narrowed (if x.isIntegral then .ok (.integer (clampInt64 x.truncate)) else
    .error (.incompatibleDomain (.castOf (.number x)) .integer .number))
  by_cases hdvd : (Binary64.unitsPerOne : Int) ∣ x.scaled
  · obtain ⟨k, hk⟩ := hdvd
    have hwhole : x.isIntegral = true := by
      rw [Binary64.isIntegral, hx, hk, Int.mul_emod_right]
      rfl
    have htruncate : x.truncate = k := by
      rw [Binary64.truncate, hk, Int.mul_tdiv_cancel_left _ hpos.ne']
    rw [if_pos hwhole, htruncate]
    exact narrowed_clamp (hk.trans (Int.mul_comm _ _))
  · have hwhole : ¬ x.isIntegral = true := by
      intro h
      rw [Binary64.isIntegral, hx, Bool.true_and, decide_eq_true_eq] at h
      exact hdvd (Int.dvd_of_emod_eq_zero h)
    rw [if_neg hwhole]
    exact .fraction fun k hk => hdvd ⟨k, hk.trans (Int.mul_comm _ _)⟩

end Scalar

/-! ## Results of reducers -/

namespace Reducer

/-- A reducer casts a finite number to the domain of its column. -/
theorem fit_of_isFinite (hx : x.isFinite = true) (domain : Domain) :
    fit (.number x) domain = (Scalar.number x).cast domain := by
  rw [fit, Binary64.not_isNaN_of_isFinite hx, Bool.false_and, if_neg Bool.false_ne_true]

/-- Where the number is reduced for a column of integers, the row has what may have become of it. -/
def NarrowedIn (r : Reducer) (isRunning : Bool) (schema : Schema) (x : Binary64)
    (rows part : List Row) : Prop :=
  List.Forall₂ (fun e made => ∀ m ∈ schema.measures, r.outputDomain? m.domain = .ok .integer →
    (r.column isRunning rows m).getD e.2 (.null .null) = .number x →
      ∃ v, Row.get? made m.name = some v ∧ x.Narrowed (.ok v)) rows.zipIdx part

variable {r : Reducer} {schema target : Schema} {label : String} {isRunning : Bool}

theorem narrowedIn_partition (hx : x.isFinite = true) {rows part : List Row}
    (hrows : ∀ own ∈ rows, own.schema = schema ∧ own.WellFormed)
    (htarget : schema.mapMeasures (fun m => r.outputDomain? m.domain) = .ok target)
    (hfind : ∀ m ∈ schema.measures, schema.component? m.name = some m)
    (h : r.partition isRunning schema.measures target label rows = .ok part) :
    r.NarrowedIn isRunning schema x rows part := by
  refine (forall₂_mem (rowOver_partition hrows htarget hfind h)).imp fun e made he => ?_
  obtain ⟨hrow, hmem, -⟩ := he
  intro m hm hinteger hvalue
  obtain ⟨hschema, -⟩ := hrows e.1 (List.fst_mem_of_mem_zipIdx hmem)
  obtain ⟨c, -, -, hc, v, hfit, hget⟩ := hrow.measure m (hschema ▸ hm)
  have hdomain : c.domain = .integer := Except.ok.inj (hc.symm.trans hinteger)
  rw [hvalue, hdomain, fit_of_isFinite hx] at hfit
  refine ⟨v, hget, ?_⟩
  rw [← hfit]
  exact Scalar.narrowed_cast hx

theorem narrowedIn_runWindow (hx : x.isFinite = true) {d : DataSet} {w : Window}
    {groups : List Group} {made : List Row} (hd : d.WellFormed)
    (htarget : d.schema.mapMeasures (fun m => r.outputDomain? m.domain) = .ok target)
    (hfind : ∀ m ∈ d.schema.measures, d.schema.component? m.name = some m)
    (hgroups : w.partitions d = .ok groups)
    (h : (r.runWindow w target label d).collect = .ok made) :
    ∃ parts, made = parts.flatten ∧
      List.Forall₂ (fun g part => r.NarrowedIn w.isOrdered d.schema x (Group.rows g) part) groups
        parts := by
  rw [DataSet.collect, runWindow, DataSet.stream_derived, RowStream.collect_ofResult, hgroups,
    ok_bind] at h
  obtain ⟨parts, hparts, rfl⟩ := Window.perPartition_eq_ok.1 h
  refine ⟨parts, rfl, (forall₂_mem hparts).imp fun g part hpart => ?_⟩
  exact narrowedIn_partition hx
    (fun own hown => hd own (Window.mem_of_partitions hgroups hpart.2.1 hown)) htarget hfind hpart.1

end Reducer

/-! ## Defaults of shifts -/

namespace Shift

variable {direction : Shift} {offset : Nat} {schema : Schema} {label : String} {sorted : List Row}

/-- There is no row in the place that a row takes its measures from. -/
def Unsourced (direction : Shift) (offset : Nat) (sorted : List Row) (i : Nat) : Prop :=
  ∀ j, direction.Points offset i j → sorted[j]? = none

/-- The rows without a row to take their measures from have the number in the measures of integers,
as it may have become of it. -/
def FilledWith (direction : Shift) (offset : Nat) (x : Binary64) (sorted made : List Row) : Prop :=
  ∀ i own, sorted[i]? = some own → direction.Unsourced offset sorted i →
    ∃ r, made[i]? = some r ∧ ∀ m ∈ own.schema.measures, m.domain = .integer →
      ∃ v, r.get? m.name = some v ∧ x.Narrowed (.ok v)

/-- The rows of all partitions, each filled with the number. -/
def FilledParts (direction : Shift) (offset : Nat) (x : Binary64) (groups : List Group)
    (made : List Row) : Prop :=
  ∃ parts, made = parts.flatten ∧
    List.Forall₂ (fun g part => direction.FilledWith offset x (Group.rows g) part) groups parts

theorem filledWith_of_partitionOf (hx : x.isFinite = true) {made : List Row}
    (h : PartitionOf direction offset (some (.number x)) label sorted made) :
    direction.FilledWith offset x sorted made := by
  intro i own hi hsource
  obtain ⟨r, hr, hrowAt⟩ := h.rowAt i own hi
  refine ⟨r, hr, fun m hm hdomain => ?_⟩
  obtain ⟨v, hv, hfills⟩ := hrowAt.filled hsource m hm
  have hcast : (Scalar.number x).cast .integer = .ok v := hdomain ▸ hfills
  refine ⟨v, hv, ?_⟩
  rw [← hcast]
  exact Scalar.narrowed_cast hx

/-- Measures that the number does not fill refuse it. -/
theorem refusal_fill (schema : Schema) :
    Outcome x.Refuses (fun _ => True) (fill schema (some (.number x))) := by
  refine (Outcome.mapM (R := fun _ _ => True) fun m _ => ?_).mono fun _ _ _ => trivial
  show Outcome x.Refuses _ (((Scalar.number x).cast m.domain).map fun v => (m, v))
  cases hcast : (Scalar.number x).cast m.domain with
  | ok v => trivial
  | error e => exact Scalar.refuses_of_cast_number hcast

/-- A shift with a finite number as default fills its rows with what became of the number, or has
none because the number was refused. -/
theorem outcome_run (hx : x.isFinite = true) {d : DataSet} {w : Window} {groups : List Group}
    (hd : d.WellFormed) (hgroups : w.partitions d = .ok groups) :
    Outcome x.Refuses (direction.FilledParts offset x groups)
      (direction.run offset (some (.number x)) w label d).collect := by
  have hsorted : ∀ g ∈ groups, ∀ r ∈ g.rows, r.schema = d.schema ∧ r.WellFormed :=
    fun g hg r hr => hd r (Window.mem_of_partitions hgroups hg hr)
  have hrun : Outcome x.Refuses (fun _ => True)
      (direction.run offset (some (.number x)) w label d).collect := by
    refine (outcome_collect_run hd hgroups).mono_error fun e he => ?_
    have hrefusal := refusal_fill (x := x) d.schema
    rw [he] at hrefusal
    exact hrefusal
  rw [collect_run hgroups] at hrun ⊢
  refine hrun.mono fun made hmade _ => ?_
  obtain ⟨parts, hparts, rfl⟩ := Window.perPartition_eq_ok.1 hmade
  refine ⟨parts, rfl, (forall₂_mem hparts).imp fun g part h => ?_⟩
  exact filledWith_of_partitionOf hx (partition_eq_ok (hsorted g h.2.1) h.1)

/-- A row that has to be filled with a fraction leaves the shift with the refusal alone. -/
theorem items_of_fraction {d : DataSet} {w : Window} {groups : List Group} (hd : d.WellFormed)
    (hgroups : w.partitions d = .ok groups)
    (hfraction : ∀ k : Int, x.scaled ≠ k * Binary64.unitsPerOne)
    (hinteger : ∃ m ∈ d.schema.measures, m.domain = .integer)
    (hunsourced : ∃ g ∈ groups, ∃ i < g.rows.length, direction.Unsourced offset g.rows i)
    (hrun : Outcome x.Refuses (direction.FilledParts offset x groups)
      (direction.run offset (some (.number x)) w label d).collect) :
    ∃ e, x.Refuses e ∧
      (direction.run offset (some (.number x)) w label d).stream.items = [.error e] := by
  rw [stream_run]
  cases hcollect : (direction.run offset (some (.number x)) w label d).collect with
  | error e =>
    rw [hcollect] at hrun
    exact ⟨e, hrun, rfl⟩
  | ok made =>
    obtain ⟨parts, -, hparts⟩ := hrun.result hcollect
    obtain ⟨g, hg, i, hi, hsource⟩ := hunsourced
    obtain ⟨m, hm, hdomain⟩ := hinteger
    obtain ⟨part, -, hfilled⟩ := exists_of_forall₂ hparts hg
    have hschema : g.rows[i].schema = d.schema :=
      (hd _ (Window.mem_of_partitions hgroups hg (List.getElem_mem hi))).1
    obtain ⟨r, -, hmeasures⟩ := hfilled i _ (List.getElem?_eq_getElem hi) hsource
    obtain ⟨v, -, hnarrowed⟩ := hmeasures m (hschema ▸ hm) hdomain
    cases hnarrowed with
    | exact hk => exact absurd hk (hfraction _)
    | above hk _ => exact absurd hk (hfraction _)
    | below hk _ => exact absurd hk (hfraction _)

end Shift

/-- A finite number that is put in a place for integers, by a cast, as the default of a shift, or as
the result of a reducer for a measure that is found by its name, is the integer equal to it there.
If it has a fractional part it is refused, and a shift that would have to fill an integer with it
yields this refusal and nothing else.  Only whole numbers beyond the integers of 64 bits change
their value, and become the integer at that end. -/
theorem narrowing (hx : x.isFinite = true) :
    (∀ domain i, (Scalar.number x).cast domain = .ok (.integer i) → domain = .integer) ∧
      x.Narrowed ((Scalar.number x).cast .integer) ∧
      (∀ domain, Reducer.fit (.number x) domain = (Scalar.number x).cast domain) ∧
      (∀ (r : Reducer) (w : Window) (label : String) {d : DataSet} {target : Schema}
        {groups : List Group} {made : List Row}, d.WellFormed →
          d.schema.mapMeasures (fun m => r.outputDomain? m.domain) = .ok target →
          (∀ m ∈ d.schema.measures, d.schema.component? m.name = some m) →
          w.partitions d = .ok groups → (r.runWindow w target label d).collect = .ok made →
            ∃ parts, made = parts.flatten ∧
              List.Forall₂ (fun g part => r.NarrowedIn w.isOrdered d.schema x (Group.rows g) part)
                groups parts) ∧
      ∀ (direction : Shift) (offset : Nat) (w : Window) (label : String) {d : DataSet}
        {groups : List Group}, d.WellFormed → w.partitions d = .ok groups →
          Outcome x.Refuses (direction.FilledParts offset x groups)
              (direction.run offset (some (.number x)) w label d).collect ∧
            ((∀ k : Int, x.scaled ≠ k * Binary64.unitsPerOne) →
              (∃ m ∈ d.schema.measures, m.domain = .integer) →
              (∃ g ∈ groups, ∃ i < g.rows.length, direction.Unsourced offset g.rows i) →
                ∃ e, x.Refuses e ∧
                  (direction.run offset (some (.number x)) w label d).stream.items =
                    [.error e]) := by
  refine ⟨fun domain i h => Scalar.domain_of_cast_number h, Scalar.narrowed_cast hx,
    Reducer.fit_of_isFinite hx, ?_, ?_⟩
  · intro r w label d target groups made hd htarget hfind hgroups h
    exact Reducer.narrowedIn_runWindow hx hd htarget hfind hgroups h
  · intro direction offset w label d groups hd hgroups
    have hrun := @Shift.outcome_run x direction offset label hx d w groups hd hgroups
    refine ⟨hrun, fun hfraction hinteger hunsourced => ?_⟩
    exact Shift.items_of_fraction hd hgroups hfraction hinteger hunsourced hrun

/-- The first whole number beyond the integers of 64 bits. -/
def Binary64.beyondIntegers : Binary64 := .ofInt (2 ^ 63)

theorem narrowing_beyondIntegers :
    Binary64.beyondIntegers.isFinite = true ∧
      (Scalar.number .beyondIntegers).cast .integer = .ok (.integer Int64.maxValue) ∧
      Binary64.beyondIntegers.scaled ≠ Int64.maxValue.toInt * Binary64.unitsPerOne := by
  have hfinite : Binary64.beyondIntegers.isFinite = true := by decide +kernel
  have hscaled : Binary64.beyondIntegers.scaled = 2 ^ 63 * Binary64.unitsPerOne := by decide +kernel
  have hpos : (Binary64.unitsPerOne : Int) ≠ 0 :=
    (Int.natCast_pos.2 Binary64.unitsPerOne_pos).ne'
  have hequal {k : Int} (h : Binary64.beyondIntegers.scaled = k * Binary64.unitsPerOne) :
      k = 2 ^ 63 :=
    Int.eq_of_mul_eq_mul_right hpos (h.symm.trans hscaled)
  refine ⟨hfinite, ?_, fun h => absurd (hequal h) (by decide)⟩
  have hcast := (narrowing hfinite).2.1
  generalize (Scalar.number .beyondIntegers).cast .integer = result at hcast ⊢
  cases hcast with
  | @exact i h => exact absurd (hequal h) (Int64.toInt_lt i).ne
  | fraction h => exact absurd hscaled (h _)
  | above => rfl
  | below h hlow =>
    rw [hequal h] at hlow
    exact absurd hlow (by decide)

end DataCube
