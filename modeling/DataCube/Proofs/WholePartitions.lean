import DataCube.Proofs.ReducedRows
import DataCube.Proofs.Safety.Reductions

/-!
# Groups and whole partitions

A statistic over a group and the same statistic over a window that does not sort reduce the same
rows.  They part only where the result goes into a column: a row builder refuses a number for a
column of integers, a window casts it.

* `Accumulator.State.initial`: the kind of a state, which every step preserves.
* `Statistic.Placed`: both columns take one and the same value, or the result is a sum of integers
  beyond 64 bits, which only the window takes.  `Statistic.placed_of_outputDomain?` says that there
  is nothing else.
* `DataSet.CutBy`: the groups that both forms work on.
* `whole_partitions`: the result.
-/

namespace DataCube

open Accumulator (State)

/-! ## Results that are numbers -/

namespace Accumulator

/-- The state of the same kind that has seen nothing. -/
def State.initial : State → State
  | count _ => .count 0
  | sum _ => .sum 0
  | average _ _ => .average 0 0
  | median _ => .median []
  | least _ => .least none
  | greatest _ => .greatest none
  | moments _ => .moments .empty
  | first _ => .first none
  | last _ => .last none

@[simp] theorem State.initial_push (v : Scalar) (s : State) : (s.push v).initial = s.initial := by
  cases s <;> rfl

theorem initial_accumulate (a : Accumulator) (value : Option Scalar) :
    (a.accumulate value).state.initial = a.state.initial := by
  unfold accumulate
  split
  · rename_i n hstate
    rw [hstate]
    rfl
  · rfl
  · split <;> simp

end Accumulator

namespace Reducer

theorem initial_initialState (r : Reducer) : r.initialState.initial = r.initialState := by
  cases r with
  | statistic s => cases s <;> rfl
  | _ => rfl

/-- A reducer stays with the kind of state that it starts with. -/
theorem initial_runRows (r : Reducer) (m : Component) (rows : List Row) :
    (r.runRows m rows).state.initial = r.initialState := by
  have hfold (a : Accumulator) :
      (rows.foldl (fun a row => a.accumulate (r.extract m row)) a).state.initial =
        a.state.initial := by
    induction rows generalizing a with
    | nil => rfl
    | cons row rows ih => rw [List.foldl_cons, ih, Accumulator.initial_accumulate]
  exact (hfold r.accumulator).trans r.initial_initialState

end Reducer

namespace Statistic

variable {s : Statistic} {m c : Component} {rows : List Row}

/-- Other than the extremes, statistics have one result for both forms.  It is an integer or a
number, and for a count it is an integer. -/
theorem reduceRows_number (hs : s ≠ .least ∧ s ≠ .greatest) (m : Component) (rows : List Row) :
    s.reduceRows m rows = (Reducer.statistic s).reduceRows m rows ∧
      ((∃ i, s.reduceRows m rows = .integer i) ∨
        s ≠ .count ∧ ∃ x, s.reduceRows m rows = .number x) := by
  have hkind := (Reducer.statistic s).initial_runRows m rows
  unfold reduceRows Reducer.reduceRows
  generalize (Reducer.statistic s).runRows m rows = a at hkind
  obtain ⟨state, integerOnly⟩ := a
  have hcount (hne : state.initial ≠ .count 0) : s ≠ .count := by
    rintro rfl
    exact hne hkind
  have hnarrowed (x : Binary64) (hne : s ≠ .count) :
      (∃ i, Accumulator.narrowed x integerOnly = .integer i) ∨
        s ≠ .count ∧ ∃ y, Accumulator.narrowed x integerOnly = .number y :=
    (Reducer.domain_narrowed x integerOnly).imp_right fun hx => ⟨hne, x, hx⟩
  cases state with
  | count n => exact ⟨rfl, Or.inl ⟨_, rfl⟩⟩
  | sum total => exact ⟨rfl, hnarrowed _ (hcount (by simp [State.initial]))⟩
  | average total n => exact ⟨rfl, hnarrowed _ (hcount (by simp [State.initial]))⟩
  | median values => exact ⟨rfl, Or.inr ⟨hcount (by simp [State.initial]), _, rfl⟩⟩
  | moments moments => exact ⟨rfl, Or.inr ⟨hcount (by simp [State.initial]), _, rfl⟩⟩
  | _ =>
    -- only the extremes keep a scalar
    cases s <;> first | exact absurd rfl hs.1 | exact absurd rfl hs.2 | nomatch hkind

/-! ## Columns -/

/-- The columns of counts and of sums of integers hold integers, the others numbers. -/
theorem outputDomain?_cases (hs : s ≠ .least ∧ s ≠ .greatest) {d d' : Domain}
    (h : s.outputDomain? d = .ok d') :
    d' = .number ∨ d' = .integer ∧ (s = .count ∨ s = .sum ∧ d = .integer) := by
  have h := Reducer.resultDomain?_eq_ok.1 h
  cases s with
  | count => exact Or.inr ⟨h.symm, Or.inl rfl⟩
  | least => exact absurd rfl hs.1
  | greatest => exact absurd rfl hs.2
  | sum =>
    obtain ⟨-, rfl⟩ := h
    by_cases hd : d = .integer
    · exact Or.inr ⟨by rw [hd]; rfl, Or.inr ⟨rfl, hd⟩⟩
    · exact Or.inl (by simp [Reducer.numericDomain, hd])
  | _ => exact Or.inl h.2.symm

theorem outputDomain?_eq (hs : s ≠ .least ∧ s ≠ .greatest) (d : Domain) :
    (Reducer.statistic s).outputDomain? d = s.outputDomain? d := by
  cases s with
  | least => exact absurd rfl hs.1
  | greatest => exact absurd rfl hs.2
  | _ => rfl

/-- A column of numbers takes integers and numbers, a column of integers takes integers, and a
window makes the same of them. -/
theorem exists_store_fit {v : Scalar}
    (h : (∃ i, v = .integer i) ∧ (c.domain = .integer ∨ c.domain = .number) ∨
      (∃ x, v = .number x) ∧ c.domain = .number) :
    ∃ w, c.store v = .ok w ∧ Reducer.fit v c.domain = .ok w := by
  unfold Component.store
  rcases h with ⟨⟨i, rfl⟩, hc | hc⟩ | ⟨⟨x, rfl⟩, hc⟩
  · rw [hc]
    exact ⟨_, rfl, rfl⟩
  · rw [hc]
    exact ⟨_, rfl, rfl⟩
  · rw [hc]
    refine ⟨.number x, rfl, ?_⟩
    simp [Reducer.fit, Scalar.cast, Scalar.domain]

/-- The sum of a measure of integers is beyond 64 bits. -/
def Overruns (m : Component) (rows : List Row) : Prop :=
  m.domain = .integer ∧ ∃ total : Binary64,
    ((Reducer.statistic .sum).runRows m rows).state = .sum total ∧ fitsInt64 total.truncate = false

/-- What becomes of a measure that is reduced over some rows.  Either the column of the aggregate
form and that of the analytic form take one and the same value, or a sum of integers is beyond 64
bits: then the former refuses it and the latter takes it. -/
inductive Placed (s : Statistic) (m c : Component) (rows : List Row) : Prop where
  | taken (v : Scalar) : c.store (s.reduceRows m rows) = .ok v →
      Reducer.fit ((Reducer.statistic s).reduceRows m rows) c.domain = .ok v →
      ¬ (s = .sum ∧ Overruns m rows) → Placed s m c rows
  | refused (v : Scalar) : s = .sum → Overruns m rows →
      (∀ w, c.store (s.reduceRows m rows) ≠ .ok w) →
      Reducer.fit ((Reducer.statistic s).reduceRows m rows) c.domain = .ok v → Placed s m c rows

theorem Placed.exists_fit (h : s.Placed m c rows) :
    ∃ v, Reducer.fit ((Reducer.statistic s).reduceRows m rows) c.domain = .ok v := by
  cases h with
  | taken v _ hfit _ => exact ⟨v, hfit⟩
  | refused v _ _ _ hfit => exact ⟨v, hfit⟩

/-- A sum of integers goes into both columns just if 64 bits hold it. -/
theorem placed_sum (hrows : ∀ row ∈ rows, ∀ v, row.get? m.name = some v → v.domain = .integer)
    (hm : m.domain = .integer) (hc : c.domain = .integer) : Statistic.sum.Placed m c rows := by
  rw [← hm] at hrows
  have hforms := (reduceRows_number (s := .sum) (by decide) m rows).1
  obtain ⟨total, hstate, hsum⟩ := reduceRows_sum hm hrows
  cases hfits : fitsInt64 total.truncate with
  | true =>
    rw [hfits, if_pos rfl] at hsum
    obtain ⟨v, hstore, hfit⟩ := exists_store_fit (Or.inl ⟨⟨_, hsum⟩, Or.inl hc⟩)
    refine .taken v hstore (hforms ▸ hfit) ?_
    rintro ⟨-, -, total', hstate', hfits'⟩
    cases hstate.symm.trans hstate'
    nomatch hfits.symm.trans hfits'
  | false =>
    rw [hfits, if_neg Bool.false_ne_true] at hsum
    have hdomain : (Reducer.statistic .sum).outputDomain? m.domain = .ok c.domain := by
      rw [hm, hc]
      rfl
    -- the total is a whole number, which a window casts
    obtain ⟨v, hv, -⟩ := Reducer.exists_fit_finish
      (Reducer.keeps_runRows (r := .statistic .sum) hrows) hdomain (by rw [hc]; decide)
    refine .refused v rfl ⟨hm, total, hstate, hfits⟩ (fun w hw => ?_) hv
    rw [hsum, Component.store, hc] at hw
    nomatch hw

theorem placed_of_outputDomain? (hs : s ≠ .least ∧ s ≠ .greatest)
    (hrows : ∀ row ∈ rows, ∀ v, row.get? m.name = some v → m.domain.Describes v.domain)
    (hdomain : s.outputDomain? m.domain = .ok c.domain) : s.Placed m c rows := by
  obtain ⟨hforms, hnumber⟩ := reduceRows_number hs m rows
  rcases outputDomain?_cases hs hdomain with hc | ⟨hc, rfl | ⟨rfl, hm⟩⟩
  · have htakes : ∃ v, c.store (s.reduceRows m rows) = .ok v ∧
        Reducer.fit (s.reduceRows m rows) c.domain = .ok v := by
      rcases hnumber with hi | ⟨-, hx⟩
      · exact exists_store_fit (Or.inl ⟨hi, Or.inr hc⟩)
      · exact exists_store_fit (Or.inr ⟨hx, hc⟩)
    obtain ⟨v, hstore, hfit⟩ := htakes
    refine .taken v hstore (hforms ▸ hfit) ?_
    rintro ⟨rfl, hm, -⟩
    rw [hm, hc] at hdomain
    nomatch hdomain
  · have hi := hnumber.resolve_right fun h => h.1 rfl
    obtain ⟨v, hstore, hfit⟩ := exists_store_fit (Or.inl ⟨hi, Or.inl hc⟩)
    exact .taken v hstore (hforms ▸ hfit) fun h => nomatch h.1
  · refine placed_sum (fun row hrow v hv => ?_) hm hc
    have hdescribes := hrows row hrow v hv
    rw [hm] at hdescribes
    exact (hdescribes.resolve_right (by decide)).symm

end Statistic

/-! ## The groups of both forms -/

/-- The rows that share their key with a given row. -/
def Row.peers (own : Row) (keys : List Component) (rows : List Row) : List Row :=
  rows.filter fun r => Scalar.orderLists (keys.map r.valueOf) (keys.map own.valueOf) = .eq

/-- A dataset is cut into groups by identifiers. -/
structure DataSet.CutBy (d : DataSet) (names : List String) (keys : List Component)
    (rows : List Row) (groups : List Group) : Prop where
  named : Statistic.groupKeys? d.schema names = .ok keys
  drained : d.collect = .ok rows
  grouped : d.groupBy keys = .ok groups
  partitioned : Window.Partitioned [] keys rows groups

/-- Some group has a measure of integers whose sum is beyond 64 bits. -/
def DataSet.SumOverruns (d : DataSet) (names : List String) : Prop :=
  ∃ keys rows, Statistic.groupKeys? d.schema names = .ok keys ∧ d.collect = .ok rows ∧
    ∃ own ∈ rows, ∃ m ∈ d.schema.measures, Statistic.Overruns m (own.peers keys rows)

namespace DataSet

variable {d : DataSet} {names : List String} {keys : List Component} {rows : List Row}
  {groups : List Group} {g : Group}

theorem exists_cutBy (hd : d.WellFormed) (hkeys : Statistic.groupKeys? d.schema names = .ok keys)
    (hgroups : d.groupBy keys = .ok groups) : ∃ rows, d.CutBy names keys rows groups := by
  obtain ⟨rows, hrows⟩ := exists_collect_of_groupBy hgroups
  obtain ⟨groups', hgroups', hpartitioned⟩ := Window.partitioned_groupBy hd hrows hkeys
  cases hgroups.symm.trans hgroups'
  exact ⟨rows, hkeys, hrows, hgroups, hpartitioned⟩

namespace CutBy

theorem identifiers (h : d.CutBy names keys rows groups) (k : Component) (hk : k ∈ keys) :
    k ∈ d.schema.identifiers :=
  Statistic.mem_identifiers_of_groupKeys? h.named hk

theorem row (h : d.CutBy names keys rows groups) (hd : d.WellFormed) (hg : g ∈ groups) (r : Row)
    (hr : r ∈ g.rows) : r.schema = d.schema ∧ r.WellFormed :=
  hd.of_mem h.drained (h.partitioned.mem hg hr)

theorem keyedBy (h : d.CutBy names keys rows groups) (hd : d.WellFormed) (hg : g ∈ groups) :
    g.KeyedBy keys := by
  obtain ⟨first, hmem, hkey⟩ := h.partitioned.exists_key hg
  obtain ⟨hschema, hfits⟩ := hd.of_mem h.drained hmem
  refine ⟨first.valueOf, hkey, fun k hk => hfits.describes_valueOf ?_⟩
  rw [hschema]
  exact Schema.mem_of_mem_identifiers (h.identifiers k hk)

/-- A group has the rows that share their key with any row of it. -/
theorem rows_eq_peers (h : d.CutBy names keys rows groups) (hg : g ∈ groups) {own : Row}
    (hown : Scalar.orderLists (keys.map own.valueOf) g.key = .eq) :
    g.rows = own.peers keys rows := by
  rw [h.partitioned.rows_eq hg]
  exact Scalar.filter_orderLists_congr (fun r : Row => keys.map r.valueOf) rows
    (Scalar.orderLists_symm hown)

theorem sumOverruns_iff (h : d.CutBy names keys rows groups) :
    d.SumOverruns names ↔
      ∃ g ∈ groups, ∃ m ∈ d.schema.measures, Statistic.Overruns m g.rows := by
  constructor
  · rintro ⟨keys', rows', hkeys, hrows, own, hown, m, hm, hoverruns⟩
    cases h.named.symm.trans hkeys
    cases h.drained.symm.trans hrows
    obtain ⟨g, hg, hkey⟩ := h.partitioned.covers own hown
    rw [← h.rows_eq_peers hg hkey] at hoverruns
    exact ⟨g, hg, m, hm, hoverruns⟩
  · rintro ⟨g, hg, m, hm, hoverruns⟩
    obtain ⟨first, hmem, hkey⟩ := h.partitioned.exists_key hg
    have hself : Scalar.orderLists (keys.map first.valueOf) g.key = .eq := by
      rw [hkey]
      exact Scalar.orderLists_refl _
    rw [h.rows_eq_peers hg hself] at hoverruns
    exact ⟨keys, rows, h.named, h.drained, first, hmem, m, hm, hoverruns⟩

theorem placed (h : d.CutBy names keys rows groups) (hd : d.WellFormed) {s : Statistic}
    (hs : s ≠ .least ∧ s ≠ .greatest) (hg : g ∈ groups) {m c : Component}
    (hm : m ∈ d.schema.measures) (hdomain : s.outputDomain? m.domain = .ok c.domain) :
    s.Placed m c g.rows := by
  refine Statistic.placed_of_outputDomain? hs (fun r hr v hv => ?_) hdomain
  obtain ⟨hschema, hfits⟩ := h.row hd hg r hr
  have hmem : m ∈ r.schema.components := hschema ▸ (Schema.mem_measures.1 hm).1
  rw [hfits.get?_eq_valueOf hmem] at hv
  rw [← Option.some.inj hv]
  exact hfits.describes_valueOf hmem

end CutBy

end DataSet

/-! ## Both forms over the groups -/

section

variable {s : Statistic} {x : Expr} {scope : Scope} {d : DataSet} {names : List String}
  {keys : List Component} {rows : List Row} {groups : List Group} {target : Schema}

/-- The statistic can be taken of every measure. -/
def Statistic.Applies (s : Statistic) (schema : Schema) : Prop :=
  ∀ m ∈ schema.measures, ∃ d, s.outputDomain? m.domain = .ok d

theorem Statistic.exists_columns_iff :
    (∃ target, (columns d.schema keys).mapMeasures (fun m => s.outputDomain? m.domain) =
      .ok target) ↔ s.Applies d.schema := by
  rw [Schema.exists_mapMeasures, measures_columns]
  rfl

theorem Statistic.drainsTo_aggregate_cut (hnames : names ≠ []) (hd : d.WellFormed)
    (hx : x.eval scope = .ok (.dataset d)) {totals : List Row} :
    (Expr.aggregate s x names).DrainsTo scope totals ↔
      ∃ keys rows groups target, d.CutBy names keys rows groups ∧
        (columns d.schema keys).mapMeasures (fun m => s.outputDomain? m.domain) = .ok target ∧
        List.Forall₂ (fun g r => s.groupRow keys d.schema.measures target g = .ok r) groups
          totals := by
  have hgroups (keys : List Component) (hkeys : groupKeys? d.schema names = .ok keys) :
      Statistic.groups keys d = d.groupBy keys := by
    refine if_neg fun hempty => hnames ?_
    have hsame := forall₂_isEmpty (mapM_eq_ok.1 hkeys)
    rwa [hempty, List.isEmpty_iff] at hsame
  rw [drainsTo_aggregate hx]
  constructor
  · rintro ⟨keys, target, groups, hkeys, htarget, hgrouped, htotals⟩
    rw [hgroups keys hkeys] at hgrouped
    obtain ⟨rows, hcut⟩ := DataSet.exists_cutBy hd hkeys hgrouped
    exact ⟨keys, rows, groups, target, hcut, htarget, htotals⟩
  · rintro ⟨keys, rows, groups, target, hcut, htarget, htotals⟩
    exact ⟨keys, target, groups, hcut.named, htarget,
      (hgroups keys hcut.named).trans hcut.grouped, htotals⟩

theorem Reducer.drainsTo_analytic_cut {r : Reducer} (hd : d.WellFormed)
    (hx : x.eval scope = .ok (.dataset d)) {made : List Row} :
    (Expr.analytic r x ⟨names, []⟩).DrainsTo scope made ↔
      ∃ keys rows groups target parts, d.CutBy names keys rows groups ∧
        d.schema.mapMeasures (fun m => r.outputDomain? m.domain) = .ok target ∧
        List.Forall₂ (fun g part => r.partition false d.schema.measures target
          (Expr.analytic r x ⟨names, []⟩).text (Group.rows g) = .ok part) groups parts ∧
        parts.flatten = made := by
  rw [drainsTo_analytic hx]
  constructor
  · rintro ⟨w, target, groups, parts, hw, htarget, hgroups, hparts, hflatten⟩
    obtain ⟨keys, hkeys, rfl⟩ := Window.resolve?_unsorted.1 hw
    rw [Window.partitions_unsorted] at hgroups
    obtain ⟨rows, hcut⟩ := DataSet.exists_cutBy hd hkeys hgroups
    exact ⟨keys, rows, groups, target, parts, hcut, htarget, hparts, hflatten⟩
  · rintro ⟨keys, rows, groups, target, parts, hcut, htarget, hparts, hflatten⟩
    exact ⟨⟨keys, []⟩, target, groups, parts, Window.resolve?_unsorted.2 ⟨keys, hcut.named, rfl⟩,
      htarget, (Window.partitions_unsorted d keys).trans hcut.grouped, hparts, hflatten⟩

/-- If no sum overruns, the groups have their rows. -/
theorem Statistic.exists_drainsTo_aggregate (hs : s ≠ .least ∧ s ≠ .greatest) (hnames : names ≠ [])
    (hd : d.WellFormed) (hx : x.eval scope = .ok (.dataset d))
    (hcut : d.CutBy names keys rows groups) (happlies : s.Applies d.schema)
    (hsums : s = .sum → ¬ d.SumOverruns names) :
    ∃ totals, (Expr.aggregate s x names).DrainsTo scope totals := by
  obtain ⟨target, htarget⟩ := exists_columns_iff.2 happlies
  obtain ⟨totals, htotals⟩ : ∃ totals, List.Forall₂ (fun g r =>
      s.groupRow keys d.schema.measures target g = .ok r) groups totals := by
    refine exists_forall₂ fun g hg => ?_
    refine exists_groupRow hcut.identifiers htarget (hcut.keyedBy hd hg) ?_
    intro m hm c _ _ hdomain
    cases hcut.placed hd hs hg hm hdomain with
    | taken v hv _ _ => exact ⟨v, hv⟩
    | refused _ hsum hoverruns _ _ =>
      exact absurd (hcut.sumOverruns_iff.2 ⟨g, hg, m, hm, hoverruns⟩) (hsums hsum)
  exact ⟨totals, (drainsTo_aggregate_cut hnames hd hx).2
    ⟨keys, rows, groups, target, hcut, htarget, htotals⟩⟩

/-- The partitions always have their rows. -/
theorem Statistic.exists_drainsTo_analytic (hs : s ≠ .least ∧ s ≠ .greatest) (hd : d.WellFormed)
    (hx : x.eval scope = .ok (.dataset d))
    (hfind : ∀ m ∈ d.schema.measures, d.schema.component? m.name = some m)
    (hcut : d.CutBy names keys rows groups) (happlies : s.Applies d.schema) :
    ∃ made, (Expr.analytic (.statistic s) x ⟨names, []⟩).DrainsTo scope made := by
  obtain ⟨target, htarget⟩ : ∃ target,
      d.schema.mapMeasures (fun m => (Reducer.statistic s).outputDomain? m.domain) =
        .ok target := by
    refine Schema.exists_mapMeasures.2 fun m hm => ?_
    rw [outputDomain?_eq hs]
    exact happlies m hm
  obtain ⟨parts, hparts⟩ : ∃ parts, List.Forall₂ (fun g part =>
      (Reducer.statistic s).partition false d.schema.measures target
        (Expr.analytic (.statistic s) x ⟨names, []⟩).text (Group.rows g) = .ok part) groups
          parts := by
    refine exists_forall₂ fun g hg => ?_
    refine Reducer.exists_partition (hcut.row hd hg) htarget hfind fun i hi m hm d' hd' => ?_
    rw [Reducer.getD_column_whole _ _ hi]
    rw [outputDomain?_eq hs] at hd'
    -- any column of the domain will do
    exact (hcut.placed (c := ⟨m.name, .measure, d'⟩) hd hs hg hm hd').exists_fit
  exact ⟨parts.flatten, (Reducer.drainsTo_analytic_cut hd hx).2
    ⟨keys, rows, groups, target, parts, hcut, htarget, hparts, rfl⟩⟩

theorem Statistic.rowOf_of_cut (hd : d.WellFormed) (hcut : d.CutBy names keys rows groups)
    (htarget : (columns d.schema keys).mapMeasures (fun m => s.outputDomain? m.domain) = .ok target)
    {g : Group} (hg : g ∈ groups) {total : Row}
    (htotal : s.groupRow keys d.schema.measures target g = .ok total) :
    s.RowOf keys d.schema.measures target g total :=
  rowOf_groupRow hcut.identifiers htarget (hcut.keyedBy hd hg) htotal

/-- The aggregate has one row for a key. -/
theorem Statistic.eq_of_total_key (hd : d.WellFormed) (hcut : d.CutBy names keys rows groups)
    (htarget : (columns d.schema keys).mapMeasures (fun m => s.outputDomain? m.domain) = .ok target)
    {totals : List Row}
    (htotals : List.Forall₂ (fun g r =>
      s.groupRow keys d.schema.measures target g = .ok r) groups totals)
    {total other : Row} (htotal : total ∈ totals) (hother : other ∈ totals)
    (hkey : Scalar.orderLists (keys.map total.valueOf) (keys.map other.valueOf) = .eq) :
    total = other := by
  obtain ⟨g, hg, hrow⟩ := exists_of_forall₂ htotals.flip htotal
  obtain ⟨g', hg', hrow'⟩ := exists_of_forall₂ htotals.flip hother
  rw [(rowOf_of_cut hd hcut htarget hg hrow).key,
    (rowOf_of_cut hd hcut htarget hg' hrow').key] at hkey
  cases hcut.partitioned.eq_of_key hg hg' hkey
  exact Except.ok.inj (hrow.symm.trans hrow')

/-- A group whose sum overruns has no row. -/
theorem Statistic.not_sumOverruns (hd : d.WellFormed) (hcut : d.CutBy names keys rows groups)
    (htarget : (columns d.schema keys).mapMeasures (fun m => Statistic.sum.outputDomain? m.domain) =
      .ok target) {totals : List Row}
    (htotals : List.Forall₂ (fun g r =>
      Statistic.sum.groupRow keys d.schema.measures target g = .ok r) groups totals) :
    ¬ d.SumOverruns names := by
  rw [hcut.sumOverruns_iff]
  rintro ⟨g, hg, m, hm, hoverruns⟩
  obtain ⟨r, -, hr⟩ := exists_of_forall₂ htotals hg
  obtain ⟨c, -, -, hdomain, v, hv, -⟩ := (rowOf_of_cut hd hcut htarget hg hr).measure m hm
  cases hcut.placed hd (by decide) hg hm hdomain with
  | taken _ _ _ hnot => exact hnot ⟨rfl, hoverruns⟩
  | refused _ _ _ hrefused _ => exact hrefused v hv

/-- A row that stays beside its group has the key and the measures of the row of the group. -/
theorem Statistic.matches_rowOf (hs : s ≠ .least ∧ s ≠ .greatest) (hd : d.WellFormed)
    (hcut : d.CutBy names keys rows groups) {g : Group} (hg : g ∈ groups) {own beside total : Row}
    (hown : own ∈ g.rows) {target' : Schema} {label : String}
    (hbeside : (Reducer.statistic s).RowOver target' label
      (fun m => (Reducer.statistic s).reduceRows m g.rows) own beside)
    (htotal : s.RowOf keys d.schema.measures target g total) :
    Scalar.orderLists (keys.map beside.valueOf) (keys.map total.valueOf) = .eq ∧
      ∀ m ∈ d.schema.measures, ∃ v, beside.get? m.name = some v ∧ total.get? m.name = some v := by
  obtain ⟨hschema, -⟩ := hcut.row hd hg own hown
  constructor
  · have hkept : keys.map beside.valueOf = keys.map own.valueOf := by
      refine List.map_congr_left fun k hk => ?_
      obtain ⟨hmem, hrole⟩ := Schema.mem_identifiers.1 (hcut.identifiers k hk)
      have hget := hbeside.kept k (hschema ▸ hmem) (by rw [hrole]; decide)
      rw [Row.valueOf, Row.valueOf, hget]
    rw [hkept, htotal.key]
    rw [hcut.partitioned.rows_eq hg] at hown
    exact of_decide_eq_true (List.mem_filter.1 hown).2
  · intro m hm
    obtain ⟨c, -, -, hdomain, v, hv, hget⟩ := htotal.measure m hm
    obtain ⟨c', -, -, hdomain', v', hv', hget'⟩ := hbeside.measure m (hschema ▸ hm)
    rw [outputDomain?_eq hs, hdomain] at hdomain'
    rw [← Except.ok.inj hdomain'] at hv'
    cases hcut.placed hd hs hg hm hdomain with
    | taken w hstore hfit _ =>
      cases hv.symm.trans hstore
      cases hv'.symm.trans hfit
      exact ⟨_, hget', hget⟩
    | refused _ _ _ hrefused _ => exact absurd hv (hrefused v)

end

/-- For the statistics other than the extremes, aggregating by identifiers drains just if the
analytic over the partitions by them does and no sum of integers leaves 64 bits: the aggregate
refuses such a sum, the analytic casts it.  If both drain, each row of the analytic has the measures
of the one row of the aggregate that has its key.  Each measure has to be what its stored name
refers to, since the analytic looks it up again. -/
theorem whole_partitions {s : Statistic} {x : Expr} {names : List String} {scope : Scope}
    {d : DataSet} (hs : s ≠ .least ∧ s ≠ .greatest) (hnames : names ≠ [])
    (hx : x.eval scope = .ok (.dataset d)) (hd : d.WellFormed)
    (hfind : ∀ m ∈ d.schema.measures, d.schema.component? m.name = some m) :
    ((∃ totals, (Expr.aggregate s x names).DrainsTo scope totals) ↔
      (∃ made, (Expr.analytic (.statistic s) x ⟨names, []⟩).DrainsTo scope made) ∧
        (s = .sum → ¬ d.SumOverruns names)) ∧
    ∀ totals made, (Expr.aggregate s x names).DrainsTo scope totals →
      (Expr.analytic (.statistic s) x ⟨names, []⟩).DrainsTo scope made →
        ∃ keys, Statistic.groupKeys? d.schema names = .ok keys ∧
          ∀ beside ∈ made, ∃ total ∈ totals,
            (Scalar.orderLists (keys.map beside.valueOf) (keys.map total.valueOf) = .eq ∧
              ∀ m ∈ d.schema.measures, ∃ v, beside.get? m.name = some v ∧
                total.get? m.name = some v) ∧
            ∀ other ∈ totals,
              Scalar.orderLists (keys.map beside.valueOf) (keys.map other.valueOf) = .eq →
                other = total := by
  refine ⟨⟨?_, ?_⟩, ?_⟩
  · rintro ⟨totals, htotals⟩
    obtain ⟨keys, rows, groups, target, hcut, htarget, htotals⟩ :=
      (Statistic.drainsTo_aggregate_cut hnames hd hx).1 htotals
    have happlies : s.Applies d.schema := Statistic.exists_columns_iff.1 ⟨target, htarget⟩
    refine ⟨Statistic.exists_drainsTo_analytic hs hd hx hfind hcut happlies, ?_⟩
    rintro rfl
    exact Statistic.not_sumOverruns hd hcut htarget htotals
  · rintro ⟨⟨made, hmade⟩, hsums⟩
    obtain ⟨keys, rows, groups, target, -, hcut, htarget, -⟩ :=
      (Reducer.drainsTo_analytic_cut hd hx).1 hmade
    have happlies : s.Applies d.schema := by
      intro m hm
      rw [← Statistic.outputDomain?_eq hs]
      exact Schema.exists_mapMeasures.1 ⟨target, htarget⟩ m hm
    exact Statistic.exists_drainsTo_aggregate hs hnames hd hx hcut happlies hsums
  · intro totals made htotals hmade
    obtain ⟨keys, rows, groups, target, hcut, htarget, htotals⟩ :=
      (Statistic.drainsTo_aggregate_cut hnames hd hx).1 htotals
    obtain ⟨keys', rows', groups', target', parts, hcut', htarget', hparts, rfl⟩ :=
      (Reducer.drainsTo_analytic_cut hd hx).1 hmade
    cases hcut.named.symm.trans hcut'.named
    cases hcut.grouped.symm.trans hcut'.grouped
    refine ⟨keys, hcut.named, fun beside hbeside => ?_⟩
    obtain ⟨part, hpart, hbeside⟩ := List.mem_flatten.1 hbeside
    obtain ⟨g, hg, hpart⟩ := exists_of_forall₂ hparts.flip hpart
    have hrows := Reducer.rowOver_partition_whole (hcut.row hd hg) htarget' hfind hpart
    obtain ⟨own, hown, hover⟩ := exists_of_forall₂ hrows.flip hbeside
    obtain ⟨total, htotal, hrow⟩ := exists_of_forall₂ htotals hg
    have hmatches := Statistic.matches_rowOf hs hd hcut hg hown hover
      (Statistic.rowOf_of_cut hd hcut htarget hg hrow)
    refine ⟨total, htotal, hmatches, fun other hother hkey => ?_⟩
    exact Statistic.eq_of_total_key hd hcut htarget htotals hother htotal
      (Scalar.orderLists_trans (Scalar.orderLists_symm hkey) hmatches.1)

/-- Two identifiers and a measure. -/
def keyedTwice : Schema :=
  ⟨[⟨"k", .identifier, .string⟩, ⟨"j", .identifier, .integer⟩, ⟨"m", .measure, .integer⟩],
    by decide⟩

/-- Three rows, of which the first and the last share the first identifier. -/
def keyedTwiceDataSet : DataSet :=
  ⟨keyedTwice, some "ds", .pure (.ofRows
    [⟨keyedTwice, [.string "a", .integer 1, .integer 4], .known "ds"⟩,
      ⟨keyedTwice, [.string "b", .integer 1, .null .integer], .known "ds"⟩,
      ⟨keyedTwice, [.string "a", .integer 2, .integer 7], .known "ds"⟩])⟩

theorem named_keyedTwiceDataSet :
    DataSet.named "ds" keyedTwice [[.string "a", .integer 1, .integer 4],
      [.string "b", .integer 1, .null .null], [.string "a", .integer 2, .integer 7]] =
        .ok keyedTwiceDataSet := rfl

/-- Its groups by the first identifier. -/
theorem groupBy_keyedTwiceDataSet :
    keyedTwiceDataSet.groupBy [⟨"k", .identifier, .string⟩] = .ok
      [⟨[.string "a"], [⟨keyedTwice, [.string "a", .integer 1, .integer 4], .known "ds"⟩,
          ⟨keyedTwice, [.string "a", .integer 2, .integer 7], .known "ds"⟩]⟩,
        ⟨[.string "b"], [⟨keyedTwice, [.string "b", .integer 1, .null .integer], .known "ds"⟩]⟩] :=
  @DataSet.groupBy_of_ascending keyedTwiceDataSet _ [0] _ rfl rfl (by decide) (by decide)

/-- The scope in which only that dataset is bound. -/
def keyedTwiceScope : Scope := .engine ⟨[("ds", .dataset keyedTwiceDataSet)]⟩ .empty

/-- The number of rows with the same first identifier, beside each row. -/
def countBesideKey : Expr := .analytic (.statistic .count) (.var "ds") ⟨["k"], []⟩

/-- A row with the count beside it. -/
def countedRow (k : String) (j n : Int64) : Row :=
  ⟨keyedTwice, [.string k, .integer j, .integer n], .node countBesideKey.text [.known "ds"]⟩

theorem drainsTo_countBesideKey :
    countBesideKey.DrainsTo keyedTwiceScope
      [countedRow "a" 1 2, countedRow "a" 2 2, countedRow "b" 1 1] := by
  have hx : (Expr.var "ds").eval keyedTwiceScope = .ok (.dataset keyedTwiceDataSet) := rfl
  have hpartitions := (Window.partitions_unsorted _ _).trans groupBy_keyedTwiceDataSet
  exact (Reducer.drainsTo_analytic hx).2
    ⟨_, _, _, _, rfl, rfl, hpartitions, .cons rfl (.cons rfl .nil), rfl⟩

/-- The aggregate counts two rows for the first key, as the analytic does beside each of them. -/
theorem whole_partitions_keyedTwice :
    (Statistic.count ≠ .least ∧ Statistic.count ≠ .greatest) ∧ keyedTwiceDataSet.WellFormed ∧
      (∀ m ∈ keyedTwice.measures, keyedTwice.component? m.name = some m) ∧
      ∃ totals, (Expr.aggregate .count (.var "ds") ["k"]).DrainsTo keyedTwiceScope totals ∧
        ∃ total ∈ totals, total.get? "m" = some (.integer 2) := by
  have hs : Statistic.count ≠ .least ∧ Statistic.count ≠ .greatest := by decide
  have hd : keyedTwiceDataSet.WellFormed := DataSet.wellFormed_named named_keyedTwiceDataSet
  have hfind : ∀ m ∈ keyedTwice.measures, keyedTwice.component? m.name = some m := by decide
  have hx : (Expr.var "ds").eval keyedTwiceScope = .ok (.dataset keyedTwiceDataSet) := rfl
  obtain ⟨hdrains, hmeasures⟩ := whole_partitions hs (List.cons_ne_nil "k" []) hx hd hfind
  obtain ⟨totals, htotals⟩ := hdrains.2 ⟨⟨_, drainsTo_countBesideKey⟩, fun h => nomatch h⟩
  obtain ⟨keys, -, hbeside⟩ := hmeasures totals _ htotals drainsTo_countBesideKey
  obtain ⟨total, htotal, ⟨-, hvalue⟩, -⟩ := hbeside (countedRow "a" 1 2) List.mem_cons_self
  obtain ⟨v, hrow, hv⟩ := hvalue ⟨"m", .measure, .integer⟩ (by decide)
  cases hrow
  exact ⟨hs, hd, hfind, totals, htotals, total, htotal, hv⟩

end DataCube
