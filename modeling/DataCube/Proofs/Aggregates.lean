import Mathlib.Algebra.GroupWithZero.Nat
import DataCube.Proofs.Contributions
import DataCube.Proofs.Splits
import DataCube.Proofs.WholePartitions

/-!
# Aggregates account for every row

An aggregate has one row for each key, and every row of the operand is in the group of its key.  The
lineages of a group are counted in the same pass as a measure is reduced, which may be shared over
slices, or in a pass of their own where there is no measure; the counts do not depend on it.

* `Reducer.countedRun`, `Reducer.countedSplit`: a reduction with the lineages counted beside it.
  `Reducer.countedSplit_fst` says that these are the contributions of the rows, and
  `Reducer.countedSplit_count` that a count stays in step with them.
* `Statistic.GroupsOf`: the groups that an aggregate works on, with or without keys.
* `Statistic.Accounts`: a row and its counts account for the rows of a group.
* `aggregate_accounts`: the result.
-/

namespace DataCube

/-! ## Counting beside a reduction -/

namespace Reducer

variable {r : Reducer} {m : Component}

/-- One pass over rows that counts their lineages and reduces a measure. -/
def countedRun (r : Reducer) (m : Component) (rows : List Row) : Lineage.Group × Accumulator :=
  rows.foldl (fun acc row => (acc.1.add row.lineage, acc.2.accumulate (r.extract m row)))
    ([], r.accumulator)

/-- The same, shared over adjacent slices. -/
def countedSplit (r : Reducer) (m : Component) (rows : Split Row) : Lineage.Group × Accumulator :=
  rows.reduce (r.countedRun m) fun left right =>
    (left.1.merge right.1, left.2.combine right.2)

/-- The lineages and the measure do not interfere. -/
theorem countedRun_eq (m : Component) (rows : List Row) :
    r.countedRun m rows = (Statistic.contributions rows, r.runRows m rows) := by
  have hfold (g : Lineage.Group) (a : Accumulator) :
      rows.foldl (fun acc row => (acc.1.add row.lineage, acc.2.accumulate (r.extract m row)))
          (g, a) =
        ((rows.map Row.lineage).foldl Lineage.Group.add g,
          rows.foldl (fun a row => a.accumulate (r.extract m row)) a) := by
    induction rows generalizing g a with
    | nil => rfl
    | cons row rows ih => exact ih _ _
  exact hfold [] r.accumulator

theorem countedSplit_eq (m : Component) (rows : Split Row) :
    r.countedSplit m rows =
      (rows.reduce Statistic.contributions Lineage.Group.merge,
        rows.reduce (r.runRows m) Accumulator.combine) := by
  unfold countedSplit
  induction rows with
  | slice rows => exact countedRun_eq m rows
  | join left right hleft hright =>
    simp only [Split.reduce]
    rw [hleft, hright]

/-- However the rows are cut, their lineages are counted as in one pass. -/
theorem countedSplit_fst (m : Component) (rows : Split Row) :
    (r.countedSplit m rows).1 = Statistic.contributions rows.toList := by
  rw [countedSplit_eq, Statistic.contributions_slices]

/-- A count sees every row. -/
theorem runRows_count (m : Component) (rows : List Row) :
    ((Reducer.statistic .count).runRows m rows).state = .count rows.length := by
  rw [runRows_eq_run, run_count, List.length_map]

theorem countedSplit_count (m : Component) (rows : Split Row) :
    ((Reducer.statistic .count).countedSplit m rows).2.state = .count rows.toList.length := by
  rw [countedSplit_eq, reduce_runRows_eq (by decide), runRows_count]

end Reducer

/-! ## Groups -/

namespace Statistic

variable {s : Statistic} {d : DataSet} {names : List String} {keys : List Component}
  {rows : List Row} {groups : List Group} {g : Group}

/-- The groups of rows by some keys, in strictly ascending order, with the rows of each key.
Without keys there is one group, which may be empty. -/
structure GroupsOf (keys : List Component) (rows : List Row) (groups : List Group) : Prop where
  ascending : groups.Pairwise fun g g' => Scalar.orderLists g.key g'.key = .lt
  keyedBy : ∀ g ∈ groups, g.KeyedBy keys
  rows_eq : ∀ g ∈ groups,
    g.rows = rows.filter fun r => Scalar.orderLists (keys.map r.valueOf) g.key = .eq
  covers : ∀ r ∈ rows, ∃ g ∈ groups, Scalar.orderLists (keys.map r.valueOf) g.key = .eq
  inhabited : keys ≠ [] → ∀ g ∈ groups, ∃ first ∈ rows, g.key = keys.map first.valueOf
  whole : keys = [] → groups.length = 1
  perm : (groups.map Group.rows).flatten.Perm rows

theorem groupsOf_nil (rows : List Row) : GroupsOf [] rows [⟨[], rows⟩] where
  ascending := List.pairwise_singleton _ _
  keyedBy := List.forall_mem_singleton.2 ⟨fun c => .null c.domain, rfl, nofun⟩
  rows_eq := List.forall_mem_singleton.2 (List.filter_eq_self.2 fun _ _ => rfl).symm
  covers _ _ := ⟨_, List.mem_singleton_self _, rfl⟩
  inhabited hne := absurd rfl hne
  whole _ := rfl
  perm := by simp

theorem groupsOf_cutBy (hd : d.WellFormed) (hkeys : keys ≠ [])
    (h : d.CutBy names keys rows groups) : GroupsOf keys rows groups where
  ascending := h.partitioned.ascending
  keyedBy _ hg := h.keyedBy hd hg
  rows_eq _ hg := h.partitioned.rows_eq hg
  covers := h.partitioned.covers
  inhabited _ _ hg := h.partitioned.exists_key hg
  whole hnil := absurd hnil hkeys
  perm := h.partitioned.perm

/-- An aggregate works on the groups of what its operand drains to. -/
theorem groupsOf_groups (hd : d.WellFormed) (hkeys : groupKeys? d.schema names = .ok keys)
    (h : Statistic.groups keys d = .ok groups) :
    ∃ rows, d.collect = .ok rows ∧ GroupsOf keys rows groups := by
  unfold Statistic.groups at h
  split at h
  · rename_i hempty
    obtain ⟨rows, hrows, h⟩ := bind_eq_ok.1 h
    cases h
    rw [List.isEmpty_iff.1 hempty]
    exact ⟨rows, hrows, groupsOf_nil rows⟩
  · rename_i hempty
    obtain ⟨rows, hcut⟩ := DataSet.exists_cutBy hd hkeys h
    exact ⟨rows, hcut.drained,
      groupsOf_cutBy hd (fun hnil => hempty (List.isEmpty_iff.2 hnil)) hcut⟩

/-- What drains can be grouped. -/
theorem exists_groups (hd : d.WellFormed) (hkeys : groupKeys? d.schema names = .ok keys)
    (hrows : d.collect = .ok rows) :
    ∃ groups, Statistic.groups keys d = .ok groups ∧ GroupsOf keys rows groups := by
  obtain ⟨groups, hgroups⟩ : ∃ groups, Statistic.groups keys d = .ok groups := by
    unfold Statistic.groups
    split
    · exact ⟨_, bind_eq_ok.2 ⟨rows, hrows, rfl⟩⟩
    · obtain ⟨groups, hgroups, -⟩ := Window.partitioned_groupBy hd hrows hkeys
      exact ⟨groups, hgroups⟩
  obtain ⟨rows', hrows', hcut⟩ := groupsOf_groups hd hkeys hgroups
  cases hrows.symm.trans hrows'
  exact ⟨groups, hgroups, hcut⟩

/-! ## Rows of groups -/

/-- The row has counts for its lineage, which are those of the rows of its group: for every lineage
the rows that carry it, and in all the number of rows.  They come out of every pass that reduces a
measure, however it is shared.  A count of a measure is the number of rows, as 64 bits hold it. -/
structure Accounts (s : Statistic) (measures : List Component) (members : List Row) (t : Row)
    (g : Lineage.Group) : Prop where
  lineage : t.lineage = .group g
  count : ∀ l, g.count l = members.countP fun r => r.lineage = l
  total : g.total = members.length
  collected : ∀ m (slices : Split Row), slices.toList = members →
    ((Reducer.statistic s).countedSplit m slices).1 = g ∧
      (s = .count → ((Reducer.statistic s).countedSplit m slices).2.state = .count g.total)
  counted : s = .count → ∀ m ∈ measures,
    t.get? m.name = some (.integer (Int64.ofNat g.total)) ∧
      (g.total < 2 ^ 63 → (Int64.ofNat g.total).toInt = g.total)

theorem reduceRows_count (m : Component) (rows : List Row) :
    Statistic.count.reduceRows m rows = .integer (Int64.ofNat rows.length) := by
  unfold reduceRows finish Reducer.finishWith
  rw [Reducer.runRows_count]

theorem accounts_rowOf {target : Schema} {measures : List Component} {t : Row}
    (h : s.RowOf keys measures target g t) :
    s.Accounts measures g.rows t (contributions g.rows) where
  lineage := h.lineage
  count l := by
    rw [(counts_contributions g.rows).count, List.count_eq_countP, List.countP_map]
    rfl
  total := by rw [(counts_contributions g.rows).total, List.length_map]
  collected m slices hslices := by
    refine ⟨by rw [Reducer.countedSplit_fst, hslices], ?_⟩
    rintro rfl
    rw [Reducer.countedSplit_count, hslices, (counts_contributions g.rows).total, List.length_map]
  counted hs m hm := by
    subst hs
    rw [(counts_contributions g.rows).total, List.length_map]
    refine ⟨?_, fun hlt => ?_⟩
    · obtain ⟨c, -, -, hdomain, v, hv, hget⟩ := h.measure m hm
      have hinteger : c.domain = .integer := (Except.ok.inj hdomain).symm
      rw [reduceRows_count, Component.store_of_describes (by rw [hinteger]; exact .inl rfl)] at hv
      rw [hget, ← Except.ok.inj hv]
    · exact Int64.toInt_ofNat_of_lt hlt

end Statistic

/-! ## Totals -/

/-- An aggregate loses no row and makes none up.  If it drains, its rows are in strictly ascending
order of key, every row of the operand has the one of its key, and with keys each is the row of some
row of the operand, while without keys there is a single one.  Each has counts that account for the
rows of the operand with its key, and the counts add up to the number of these rows. -/
theorem aggregate_accounts {s : Statistic} {x : Expr} {names : List String} {scope : Scope}
    {d : DataSet} {rows totals : List Row} (hd : d.WellFormed)
    (hx : x.eval scope = .ok (.dataset d)) (hrows : d.collect = .ok rows)
    (htotals : (Expr.aggregate s x names).DrainsTo scope totals) :
    ∃ keys counts, Statistic.groupKeys? d.schema names = .ok keys ∧
      (totals.Pairwise fun t t' =>
        Scalar.orderLists (keys.map t.valueOf) (keys.map t'.valueOf) = .lt) ∧
      (∀ r ∈ rows, ∃! t, t ∈ totals ∧
        Scalar.orderLists (keys.map r.valueOf) (keys.map t.valueOf) = .eq) ∧
      (names ≠ [] → ∀ t ∈ totals, ∃ r ∈ rows, keys.map t.valueOf = keys.map r.valueOf) ∧
      (names = [] → totals.length = 1) ∧
      List.Forall₂ (fun t g => s.Accounts d.schema.measures (t.peers keys rows) t g) totals
        counts ∧
      (counts.map Lineage.Group.total).sum = rows.length := by
  obtain ⟨keys, target, groups, hkeys, htarget, hgroups, hmade⟩ :=
    (Statistic.drainsTo_aggregate hx).1 htotals
  have hsame : names.isEmpty = keys.isEmpty := forall₂_isEmpty (mapM_eq_ok.1 hkeys)
  obtain ⟨rows', hrows', hcut⟩ := Statistic.groupsOf_groups hd hkeys hgroups
  cases hrows.symm.trans hrows'
  have hrowOf : List.Forall₂
      (fun g t => g ∈ groups ∧ s.RowOf keys d.schema.measures target g t) groups totals := by
    refine (forall₂_mem hmade).imp fun g t ht => ⟨ht.2.1, ?_⟩
    exact Statistic.rowOf_groupRow (fun _ => Statistic.mem_identifiers_of_groupKeys? hkeys) htarget
      (hcut.keyedBy g ht.2.1) ht.1
  have hascending : totals.Pairwise fun t t' =>
      Scalar.orderLists (keys.map t.valueOf) (keys.map t'.valueOf) = .lt :=
    forall₂_pairwise hrowOf hcut.ascending fun _ _ _ _ ht ht' hlt => by
      rwa [ht.2.key, ht'.2.key]
  refine ⟨keys, groups.map fun g => Statistic.contributions g.rows, hkeys, hascending,
    fun r hr => ?_, fun hnames t ht => ?_, fun hnames => ?_, ?_, ?_⟩
  · obtain ⟨g, hg, hkey⟩ := hcut.covers r hr
    obtain ⟨t, ht, -, hrow⟩ := exists_of_forall₂ hrowOf hg
    rw [← hrow.key] at hkey
    refine ⟨t, ⟨ht, hkey⟩, fun t' ht' => ?_⟩
    exact Scalar.eq_of_ascending hascending ht'.1 ht
      (Scalar.orderLists_trans (Scalar.orderLists_symm ht'.2) hkey)
  · obtain ⟨g, -, hg, hrow⟩ := exists_of_forall₂ hrowOf.flip ht
    rw [hrow.key]
    exact hcut.inhabited (by simpa [hsame] using List.isEmpty_eq_false_iff.2 hnames) g hg
  · rw [← hrowOf.length_eq]
    exact hcut.whole (by simpa [hnames] using hsame)
  · rw [List.forall₂_map_right_iff]
    refine hrowOf.flip.imp fun t g ht => ?_
    have hpeers : t.peers keys rows = g.rows := by
      rw [Row.peers, ht.2.key, hcut.rows_eq g ht.1]
    rw [hpeers]
    exact Statistic.accounts_rowOf ht.2
  · rw [← hcut.perm.length_eq, List.length_flatten, List.map_map, List.map_map]
    refine congrArg List.sum (List.map_congr_left fun g _ => ?_)
    exact (Statistic.counts_contributions g.rows).total.trans (List.length_map _)

/-- How many rows have each first identifier. -/
def countByKey : Expr := .aggregate .count (.var "ds") ["k"]

/-- A row for a first identifier, with the number of rows that have it. -/
def countedKey (k : String) (n : Nat) : Row :=
  ⟨keyed, [.string k, .integer (Int64.ofNat n)], .group [(.known "ds", n)]⟩

theorem drainsTo_countByKey :
    countByKey.DrainsTo keyedTwiceScope [countedKey "a" 2, countedKey "b" 1] := by
  have hx : (Expr.var "ds").eval keyedTwiceScope = .ok (.dataset keyedTwiceDataSet) := rfl
  exact (Statistic.drainsTo_aggregate hx).2
    ⟨_, _, _, rfl, rfl, groupBy_keyedTwiceDataSet, .cons rfl (.cons rfl .nil)⟩

/-- Two rows and one are all three rows. -/
theorem aggregate_accounts_countByKey :
    keyedTwiceDataSet.WellFormed ∧ ∃ rows, keyedTwiceDataSet.collect = .ok rows ∧
      rows.length = 3 ∧ ∃ counts : List Lineage.Group,
        counts.length = 2 ∧ (counts.map Lineage.Group.total).sum = rows.length := by
  have hd : keyedTwiceDataSet.WellFormed := DataSet.wellFormed_named named_keyedTwiceDataSet
  have hx : (Expr.var "ds").eval keyedTwiceScope = .ok (.dataset keyedTwiceDataSet) := rfl
  obtain ⟨keys, counts, -, -, -, -, -, haccounts, hsum⟩ :=
    aggregate_accounts hd hx rfl drainsTo_countByKey
  exact ⟨hd, _, rfl, rfl, counts, haccounts.length_eq.symm, hsum⟩

end DataCube
