import DataCube.Proofs.Arrivals
import DataCube.Proofs.UniqueKeys

/-!
# Default windows never tie

Where a window leaves its sort keys out it sorts by every identifier, and where it leaves its
partition keys out it cuts by every identifier that does not sort.  Either way every identifier is
in one of the two lists, so rows that agree in both have one key.  With both lists given an
identifier may be in neither.

* `Row.orderBy_eq_iff`: rows compare equal if they agree in all sort keys.
* `Window.Keys.covers`: a window that leaves a list out uses every identifier.
* `Window.order_ne_of_differIn`: two rows of one partition with different keys.
* `default_windows_tieFree`: rows with unique keys, as a list and as the partitions of a dataset.
-/

namespace DataCube

theorem SortDirection.apply_eq_eq {direction : SortDirection} {o : Ordering} :
    direction.apply o = .eq ↔ o = .eq := by
  cases direction with
  | asc => exact Iff.rfl
  | desc => exact Ordering.swap_eq_eq

theorem Row.orderBy_eq_iff {a b : Row} {ordering : List (Component × SortDirection)} :
    a.orderBy b ordering = .eq ↔ ∀ e ∈ ordering, (a.valueOf e.1).order (b.valueOf e.1) = .eq := by
  induction ordering with
  | nil => exact ⟨fun _ => nofun, fun _ => rfl⟩
  | cons e rest ih =>
    rw [List.forall_mem_cons, ← ih, orderBy, Ordering.then_eq_eq, SortDirection.apply_eq_eq]

namespace Window

variable {schema : Schema} {spec : WindowSpec} {w : Window} {partition : List Component}
  {ordering : List (Component × SortDirection)}

/-- The identifiers that do not sort are those that are left for the partition keys. -/
theorem Keys.covers (h : Keys schema spec .identifiers ordering partition)
    (hdefault : spec.partitionBy = [] ∨ spec.orderBy = []) {c : Component}
    (hc : c ∈ schema.identifiers) : c ∈ partition ∨ ∃ e ∈ ordering, e.1 = c := by
  rcases hdefault with hpartition | hordering
  · rw [h.partition_default rfl hpartition, List.mem_filter, Bool.not_eq_true']
    cases hsorts : ordering.any (·.1 = c) with
    | true =>
      obtain ⟨e, he, hec⟩ := List.any_eq_true.1 hsorts
      exact Or.inr ⟨e, he, of_decide_eq_true hec⟩
    | false => exact Or.inl ⟨hc, rfl⟩
  · rw [h.ordering_default rfl hordering]
    exact Or.inr ⟨(c, .asc), List.mem_map_of_mem hc, rfl⟩

/-- Rows with different keys that agree in the partition keys are told apart by the sort keys. -/
theorem order_ne_of_differIn (hw : resolve? schema spec .identifiers = .ok w)
    (hdefault : spec.partitionBy = [] ∨ spec.orderBy = []) {a b : Row}
    (ha : a.schema = schema ∧ a.WellFormed) (hb : b.schema = schema ∧ b.WellFormed)
    (hdiffer : a.DifferIn schema.identifiers b)
    (hpartition : Scalar.orderLists (w.partition.map a.valueOf) (w.partition.map b.valueOf) = .eq) :
    w.order a b ≠ .eq := by
  intro htie
  obtain ⟨ordering, hkeys, hplaces⟩ := keys_of_resolve? hw
  rw [order_eq_orderBy ha.2 hb.2 ⟨ha.1, hb.1⟩ hplaces, Row.orderBy_eq_iff] at htie
  obtain ⟨c, hc, hne⟩ := Row.differIn_iff.1 hdiffer
  rcases hkeys.covers hdefault hc with hcut | ⟨e, he, rfl⟩
  · exact hne (Scalar.orderLists_map_eq_iff.1 hpartition c hcut)
  · exact hne (htie e he)

/-- So no two rows of a partition of a dataset with unique keys compare equal. -/
theorem tieFree_of_keyed {d : DataSet} (hd : d.Keyed)
    (hw : resolve? d.schema spec .identifiers = .ok w)
    (hdefault : spec.partitionBy = [] ∨ spec.orderBy = []) : w.TieFree d := by
  intro groups hgroups g hg
  obtain ⟨cut, hcut, -⟩ := bind_eq_ok.1 hgroups
  obtain ⟨rows, hrows⟩ := exists_collect_of_groupBy hcut
  obtain ⟨ordering, groups', hgroups', -, hpartitioned⟩ :=
    partitioned_partitions hd.wellFormed hrows hw
  cases hgroups.symm.trans hgroups'
  have hdistinct : g.rows.Pairwise (Row.DifferIn d.schema.identifiers) := by
    have hall := hd.distinct
    rw [(RowStream.collect_eq_ok.1 hrows).1] at hall
    rw [(hpartitioned.sorted g hg).perm.pairwise_iff Row.DifferIn.symm]
    exact hall.sublist List.filter_sublist
  refine hdistinct.imp_of_mem fun {a b} ha hb hdiffer => ?_
  have hkey : Scalar.orderLists (w.partition.map a.valueOf) (w.partition.map b.valueOf) = .eq :=
    Scalar.orderLists_trans (hpartitioned.key_of_mem hg ha)
      (Scalar.orderLists_symm (hpartitioned.key_of_mem hg hb))
  exact order_ne_of_differIn hw hdefault (hd.wellFormed.of_mem hrows (hpartitioned.mem hg ha))
    (hd.wellFormed.of_mem hrows (hpartitioned.mem hg hb)) hdiffer hkey

end Window

/-- A window that leaves out its sort keys or its partition keys, and takes the identifiers for
them, tells any two rows with different keys apart if they agree in the partition keys, whatever the
keys are that it was given.  So no partition of a dataset with unique keys has ties. -/
theorem default_windows_tieFree {schema : Schema} {spec : WindowSpec} {w : Window}
    (hw : Window.resolve? schema spec .identifiers = .ok w)
    (hdefault : spec.partitionBy = [] ∨ spec.orderBy = []) :
    (∀ rows : List Row, (∀ r ∈ rows, r.schema = schema ∧ r.WellFormed) →
        rows.Pairwise (Row.DifferIn schema.identifiers) →
          rows.Pairwise fun a b =>
            Scalar.orderLists (w.partition.map a.valueOf) (w.partition.map b.valueOf) = .eq →
              w.order a b ≠ .eq ∧ w.order b a ≠ .eq) ∧
      ∀ d : DataSet, d.schema = schema → d.Keyed → w.TieFree d := by
  constructor
  · intro rows hrows hdistinct
    refine hdistinct.imp_of_mem fun {a b} ha hb hdiffer hkey => ?_
    exact ⟨Window.order_ne_of_differIn hw hdefault (hrows a ha) (hrows b hb) hdiffer hkey,
      Window.order_ne_of_differIn hw hdefault (hrows b hb) (hrows a ha) hdiffer.symm
        (Scalar.orderLists_symm hkey)⟩
  · rintro d rfl hd
    exact Window.tieFree_of_keyed hd hw hdefault

/-- Rows with unique keys and one measured value. -/
def alikeMeasured : List Row :=
  [⟨keyedTwice, [.string "a", .integer 1, .integer 4], .known "ds"⟩,
    ⟨keyedTwice, [.string "b", .integer 1, .integer 4], .known "ds"⟩,
    ⟨keyedTwice, [.string "a", .integer 2, .integer 4], .known "ds"⟩]

/-- A window that sorts by the measure, and then by the second identifier in two spellings. -/
def byMeasure : WindowSpec := ⟨[], [⟨"m", .desc⟩, ⟨"J", .asc⟩, ⟨"'j'", .desc⟩]⟩

/-- What that amounts to: the first identifier is left to cut by. -/
def keyedByMeasure : Window :=
  ⟨[⟨"k", .identifier, .string⟩], [(2, .desc), (1, .asc), (1, .desc)]⟩

theorem default_windows_tieFree_alikeMeasured :
    Window.resolve? keyedTwice byMeasure .identifiers = .ok keyedByMeasure ∧
      byMeasure.partitionBy = [] ∧
      (∀ r ∈ alikeMeasured, r.schema = keyedTwice ∧ r.WellFormed) ∧
      alikeMeasured.Pairwise (Row.DifferIn keyedTwice.identifiers) ∧
      alikeMeasured.Pairwise fun a b =>
        Scalar.orderLists (keyedByMeasure.partition.map a.valueOf)
            (keyedByMeasure.partition.map b.valueOf) = .eq →
          keyedByMeasure.order a b ≠ .eq ∧ keyedByMeasure.order b a ≠ .eq := by
  have hw : Window.resolve? keyedTwice byMeasure .identifiers = .ok keyedByMeasure := rfl
  have hrows : ∀ r ∈ alikeMeasured, r.schema = keyedTwice ∧ r.WellFormed := by
    simp [alikeMeasured, Row.WellFormed, Row.Fits, keyedTwice, Domain.Describes, Scalar.domain]
  have hdistinct : alikeMeasured.Pairwise (Row.DifferIn keyedTwice.identifiers) := by decide
  exact ⟨hw, rfl, hrows, hdistinct,
    (default_windows_tieFree hw (Or.inl rfl)).1 alikeMeasured hrows hdistinct⟩

/-- With both lists given, an identifier that is in neither leaves ties. -/
example (l : Lineage) :
    let k : Component := ⟨"k", .identifier, .string⟩
    let s : Schema := ⟨[k, ⟨"j", .identifier, .integer⟩, ⟨"m", .measure, .integer⟩], by decide⟩
    let w : Window := ⟨[k], [(2, .asc)]⟩
    Window.resolve? s ⟨["k"], [⟨"m", .asc⟩]⟩ .identifiers = .ok w ∧
      w.order ⟨s, [.string "a", .integer 1, .integer 4], l⟩
        ⟨s, [.string "a", .integer 2, .integer 4], l⟩ = .eq :=
  ⟨rfl, rfl⟩

end DataCube
