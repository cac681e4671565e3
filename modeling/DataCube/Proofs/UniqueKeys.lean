import DataCube.Proofs.Aggregates
import DataCube.Proofs.Identifiers

/-!
# Keys stay unique

The identifiers are the key of a row, and no operation makes two rows of one key out of rows whose
keys differ.  Most take rows over one by one and keep their keys.  An aggregate has one row for each
key that it groups by, and groups tell keys apart in the same way: by the value order, under which
the zeros are one value, as all NaNs are.

* `Row.DifferIn`: two rows differ in the values of some components.
* `DataSet.Keyed`: rows of the schema that pairwise differ in the identifiers.
* `DataSet.Keyed.mapRows`, `DataSet.Keyed.perPartition`: rows that keep their keys, one by one and
  partition by partition.
* `DataSet.invariant_keyed`: every operation hands this on.
* `unique_keys`: expressions over datasets with unique keys.
-/

namespace DataCube

/-! ## Keys -/

/-- The values of the components, taken together, are not those of the other row. -/
def Row.DifferIn (cs : List Component) (a b : Row) : Prop :=
  Scalar.orderLists (cs.map a.valueOf) (cs.map b.valueOf) ≠ .eq

instance (cs : List Component) (a b : Row) : Decidable (a.DifferIn cs b) :=
  inferInstanceAs (Decidable (_ ≠ _))

/-- The rows are rows of the schema, and any two of them differ in the identifiers. -/
structure DataSet.Keyed (d : DataSet) : Prop where
  wellFormed : d.WellFormed
  distinct : d.stream.rows.Pairwise (Row.DifferIn d.schema.identifiers)

namespace Row

variable {cs cs' : List Component} {a b a' b' : Row}

/-- Rows differ in some components if they differ in one of them. -/
theorem differIn_iff : DifferIn cs a b ↔ ∃ c ∈ cs, (a.valueOf c).order (b.valueOf c) ≠ .eq := by
  rw [DifferIn, ne_eq, Scalar.orderLists_map_eq_iff]
  simp only [not_forall, exists_prop, ne_eq]

theorem DifferIn.symm (h : DifferIn cs a b) : DifferIn cs b a :=
  fun heq => h (Scalar.orderLists_symm heq)

theorem DifferIn.mono (h : DifferIn cs a b) (hcs : cs ⊆ cs') : DifferIn cs' a b := by
  rw [differIn_iff] at h ⊢
  obtain ⟨c, hc, hne⟩ := h
  exact ⟨c, hcs hc, hne⟩

theorem DifferIn.kept (h : DifferIn cs a b) (ha : KeepsKeys cs a a') (hb : KeepsKeys cs b b') :
    DifferIn cs a' b' := by
  unfold DifferIn
  rw [List.map_congr_left ha, List.map_congr_left hb]
  exact h

/-- Rows that keep their keys differ where those differ that they are made from. -/
theorem pairwise_differIn {rows made : List Row} (h : List.Forall₂ (KeepsKeys cs) rows made)
    (hrows : rows.Pairwise (DifferIn cs)) (hcs : cs ⊆ cs') : made.Pairwise (DifferIn cs') :=
  forall₂_pairwise h hrows fun _ _ _ _ ha hb hne => (hne.kept ha hb).mono hcs

end Row

/-! ## Operations -/

namespace DataSet

variable {d : DataSet} {target : Schema}

/-- The rows of a result that is there as a whole. -/
theorem distinct_ofResult {cs : List Component} {x : Except EvalError (List Row)}
    (h : ∀ rows, x = .ok rows → rows.Pairwise (Row.DifferIn cs)) :
    (RowStream.ofResult x).rows.Pairwise (Row.DifferIn cs) := by
  cases x with
  | ok rows => exact h rows rfl
  | error e => exact .nil

namespace Keyed

theorem filter (h : d.Keyed) (p : Row → Except EvalError Bool) : (d.filter p).Keyed where
  wellFormed := invariant_wellFormed.filter p h.wellFormed
  distinct := h.distinct.sublist (RowStream.filterFrom_sublist p _ _)

/-- Rows that are mapped one by one and keep their keys. -/
theorem mapRows (h : d.Keyed) {f : Row → Except EvalError Row}
    (hwell : (d.mapRows target f).WellFormed)
    (htarget : d.schema.identifiers ⊆ target.identifiers)
    (hkept : ∀ r made, r.schema = d.schema → r.WellFormed → f r = .ok made →
      Row.KeepsKeys r.schema.identifiers r made) : (d.mapRows target f).Keyed where
  wellFormed := hwell
  distinct := by
    obtain ⟨hmade, -⟩ := RowStream.forall₂_mapFrom f d.stream.fault d.stream.rows
    refine Row.pairwise_differIn ((forall₂_mem hmade).imp fun r made hr => ?_)
      (h.distinct.sublist (List.take_sublist _ _)) htarget
    obtain ⟨hschema, hfits⟩ := h.wellFormed r (List.mem_of_mem_take hr.2.1)
    rw [← hschema]
    exact hkept r made hschema hfits hr.1

/-- Rows that are made of the partitions of a window and keep their keys. -/
theorem perPartition (h : d.Keyed) {w : Window} {spec : WindowSpec} {defaults : WindowDefaults}
    (hw : Window.resolve? d.schema spec defaults = .ok w)
    (htarget : d.schema.identifiers ⊆ target.identifiers)
    {process : List Row → Except EvalError (List Row)}
    (hkept : ∀ rows made, (∀ r ∈ rows, r.schema = d.schema ∧ r.WellFormed) →
      process rows = .ok made → List.Forall₂ (Row.KeepsKeys d.schema.identifiers) rows made) :
    (RowStream.ofResult (w.partitions d >>= fun groups =>
      Window.perPartition groups process)).rows.Pairwise (Row.DifferIn target.identifiers) := by
  refine distinct_ofResult fun made hmade => ?_
  obtain ⟨groups, hgroups, hmade⟩ := bind_eq_ok.1 hmade
  obtain ⟨parts, hparts, rfl⟩ := Window.perPartition_eq_ok.1 hmade
  obtain ⟨cut, hcut, -⟩ := map_eq_ok.1 hgroups
  obtain ⟨rows, hrows⟩ := exists_collect_of_groupBy hcut
  obtain ⟨ordering, groups', hgroups', -, hpartitioned⟩ :=
    Window.partitioned_partitions h.wellFormed hrows hw
  cases hgroups.symm.trans hgroups'
  have hkeys : List.Forall₂ (Row.KeepsKeys d.schema.identifiers)
      (groups.map Group.rows).flatten parts.flatten := by
    refine List.rel_flatten (List.forall₂_map_left_iff.2 ?_)
    refine (forall₂_mem hparts).imp fun g part hg => hkept g.rows part (fun r hr => ?_) hg.1
    exact h.wellFormed.of_mem hrows (hpartitioned.mem hg.2.1 hr)
  refine Row.pairwise_differIn hkeys ?_ htarget
  -- the partitions have the rows of the dataset in another order
  rw [hpartitioned.perm.pairwise_iff Row.DifferIn.symm, ← (RowStream.collect_eq_ok.1 hrows).1]
  exact h.distinct

theorem membership (h : d.Keyed) {name label : String} {m : DataSet}
    (hm : d.membership name label = .ok m) : m.Keyed := by
  have hwell := invariant_wellFormed.membership h.wellFormed hm
  obtain ⟨target, htarget, hm⟩ := bind_eq_ok.1 hm
  obtain ⟨member, hmember, hm⟩ := bind_eq_ok.1 hm
  cases hm
  obtain ⟨hidentifiers, hnames⟩ := Schema.identifiers_membership htarget
  refine h.mapRows hwell hidentifiers fun r made hschema hr hmade => ?_
  rw [← hschema] at hidentifiers hnames hmember
  exact keepsKeys_memberRow hmade hr hidentifiers (hnames member hmember)

theorem project (h : d.Keyed) (label : String)
    (htarget : d.schema.identifiers ⊆ target.identifiers) : (d.project target label).Keyed := by
  refine h.mapRows (wellFormed_project d target label) htarget fun r made hschema hr hmade => ?_
  exact keepsKeys_projectRow hmade hr (hschema ▸ htarget)

theorem mapMeasures (h : d.Keyed) (label : String) (f : Scalar → Except EvalError Scalar)
    (htarget : d.schema.identifiers ⊆ target.identifiers) :
    (d.mapMeasures target label f).Keyed := by
  refine h.mapRows (wellFormed_mapMeasures d target label f) htarget
    fun r made hschema hr hmade => ?_
  exact keepsKeys_mapMeasuresRow hmade hr (hschema ▸ htarget)

theorem compute (h : d.Keyed) {name : String} {domain : Domain} {computed : Component}
    (label : String) (valueOf : Row → Except EvalError Scalar)
    (htarget : d.schema.withMeasure name domain = .ok target)
    (hcomputed : target.require name = .ok computed) :
    (d.mapRows target (computedRow computed target label valueOf)).Keyed := by
  obtain ⟨rfl, hnames⟩ := Schema.computed_eq_ok htarget hcomputed
  have hidentifiers := Schema.identifiers_insert hnames
  refine h.mapRows (wellFormed_computed d _ _ label valueOf) hidentifiers
    fun r made hschema hr hmade => ?_
  exact keepsKeys_computedRow hmade hr (hschema ▸ hidentifiers) (hschema ▸ hnames)

/-- The rows of an aggregate differ in the keys that it groups by. -/
theorem runGroups (h : d.Keyed) {names : List String} {keys : List Component} (s : Statistic)
    (hkeys : Statistic.groupKeys? d.schema names = .ok keys)
    (htarget : s.outputSchema d.schema names = .ok target) :
    (s.runGroups keys target d).Keyed where
  wellFormed := s.wellFormed_runGroups keys target d
  distinct := by
    obtain ⟨keys', hkeys', hcolumns⟩ := Statistic.outputSchema_eq_ok.1 htarget
    cases hkeys.symm.trans hkeys'
    have hnamed (k : Component) (hk : k ∈ keys) : k ∈ d.schema.identifiers :=
      Statistic.mem_identifiers_of_groupKeys? hkeys hk
    have hidentifiers : keys ⊆ target.identifiers := by
      intro k hk
      obtain ⟨hmem, hrole⟩ := Schema.mem_identifiers.1 (hnamed k hk)
      refine Schema.identifiers_mapMeasures hcolumns (Schema.mem_identifiers.2 ⟨?_, hrole⟩)
      exact Statistic.mem_columns.2 ⟨hmem, Or.inl hk⟩
    refine distinct_ofResult fun totals htotals => ?_
    obtain ⟨groups, hgroups, htotals⟩ := bind_eq_ok.1 htotals
    obtain ⟨rows, -, hcut⟩ := Statistic.groupsOf_groups h.wellFormed hkeys hgroups
    refine forall₂_pairwise (forall₂_mem (mapM_eq_ok.1 htotals)) hcut.ascending
      fun g g' t t' ht ht' hlt => ?_
    have hkey := (Statistic.rowOf_groupRow hnamed hcolumns (hcut.keyedBy g ht.2.1) ht.1).key
    have hkey' := (Statistic.rowOf_groupRow hnamed hcolumns (hcut.keyedBy g' ht'.2.1) ht'.1).key
    have hdiffer : Row.DifferIn keys t t' := by
      rw [Row.DifferIn, hkey, hkey', hlt]
      decide
    exact hdiffer.mono hidentifiers

end Keyed

/-- Every operation makes rows with keys that differ out of such rows. -/
theorem invariant_keyed : Invariant Keyed where
  membership h hm := h.membership hm
  filter p h := h.filter p
  keep label h htarget := h.project label (Schema.identifiers_keep htarget)
  drop label h htarget := h.project label (Schema.identifiers_drop htarget)
  mapMeasures label f h htarget := h.mapMeasures label f (Schema.identifiers_mapMeasures htarget)
  compute label valueOf h htarget hcomputed := h.compute label valueOf htarget hcomputed
  shift direction offset default label h hw := by
    refine ⟨direction.wellFormed_run _ _ _ _ _, ?_⟩
    exact h.perPartition hw (List.Subset.refl _) fun rows made hrows hmade =>
      Shift.keepsKeys_partition hrows hmade
  aggregate s h _ hkeys htarget := h.runGroups s hkeys htarget
  analytic r label h hw htarget := by
    refine ⟨r.wellFormed_runWindow _ _ _ _, ?_⟩
    obtain ⟨_, -, hmeasures⟩ := bind_eq_ok.1 htarget
    have hidentifiers := Schema.identifiers_mapMeasures hmeasures
    exact h.perPartition hw hidentifiers fun rows made hrows hmade =>
      Reducer.keepsKeys_partition hrows hidentifiers hmade

end DataSet

/-! ## Expressions -/

/-- Over datasets of rows of their schemas, any two of which differ in the identifiers, whatever
dataset an expression amounts to has such rows again, as far as it gets.  If it drains, no two of
all its rows have one key, so without identifiers there is one row at most. -/
theorem unique_keys {e : Expr} {values : Bindings Value} {workspace : Workspace} {d : DataSet}
    (hvalues : ∀ v ∈ values.values, v.Holds DataSet.Keyed)
    (hd : e.eval (.engine values workspace) = .ok (.dataset d)) :
    d.Keyed ∧ ∀ rows, d.collect = .ok rows →
      rows.Pairwise (Row.DifferIn d.schema.identifiers) ∧
        (d.schema.identifiers = [] → rows.length ≤ 1) := by
  have hkeyed : d.Keyed := DataSet.invariant_keyed.eval (.engine hvalues) hd
  refine ⟨hkeyed, fun rows hrows => ?_⟩
  rw [← (RowStream.collect_eq_ok.1 hrows).1]
  refine ⟨hkeyed.distinct, fun hnone => ?_⟩
  have hdistinct := hkeyed.distinct
  rw [hnone] at hdistinct
  match hall : d.stream.rows, hdistinct with
  | [], _ => exact Nat.zero_le 1
  | [_], _ => exact le_rfl
  | a :: b :: _, hdistinct =>
    -- without identifiers all rows have the same key
    exact absurd rfl ((List.pairwise_cons.1 hdistinct).1 b List.mem_cons_self)

/-- The keys of the counted rows are the two that occur. -/
theorem unique_keys_countByKey :
    (Value.dataset keyedTwiceDataSet).Holds DataSet.Keyed ∧
      ∃ d rows, countByKey.eval keyedTwiceScope = .ok (.dataset d) ∧ d.collect = .ok rows ∧
        rows.length = 2 ∧ rows.Pairwise (Row.DifferIn d.schema.identifiers) := by
  have hkeyed : keyedTwiceDataSet.Keyed :=
    ⟨DataSet.wellFormed_named named_keyedTwiceDataSet, by decide⟩
  have hvalues : ∀ v ∈ (Bindings.mk [("ds", Value.dataset keyedTwiceDataSet)]).values,
      v.Holds DataSet.Keyed := List.forall_mem_singleton.2 hkeyed
  obtain ⟨d, hd, hrows⟩ := drainsTo_countByKey
  have hdistinct := (unique_keys hvalues hd).2 _ hrows
  exact ⟨hkeyed, d, _, hd, hrows, rfl, hdistinct.1⟩

end DataCube
