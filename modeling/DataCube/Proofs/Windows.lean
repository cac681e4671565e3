import Mathlib.Data.List.Pairwise
import Mathlib.Data.List.Perm.Basic
import DataCube.Proofs.Grouping
import DataCube.Proofs.Safety.Schemas

/-!
# What a window cuts and sorts

A window works with places in rows.  Over rows of the schema that it was resolved against, the
places hold the components that the window names, so its partitions can be told by names alone.

* `StableSort`: sorted, and members that compare equal stand as they stood before.
* `Window.Keys`: the sort keys and partition keys that a specification amounts to, with those left
  out filled in.
* `Row.orderBy`: the order of rows by sort keys, by component instead of by place.
* `Window.Partitioned`: the sorted partitions of a list of rows.
* `Window.partitioned_partitions`: these are what a window makes of a dataset.
* `Window.build_recombined`: the row with the measures of another row, or other values for them.
-/

namespace DataCube

/-! ## Stable sorting -/

/-- The members in ascending order, and those that compare equal in the order in which they came. -/
structure StableSort {α : Type} (order : α → α → Ordering) (xs ys : List α) : Prop where
  perm : ys.Perm xs
  ascending : ys.Pairwise fun a b => (order a b).isLE = true
  stable : ∀ x ∈ xs, (ys.filter fun y => order x y = .eq) = xs.filter fun y => order x y = .eq

namespace StableSort

variable {α : Type} {order order' : α → α → Ordering} {xs ys : List α}

/-- It only matters how the members of the list compare. -/
theorem congr (h : StableSort order xs ys)
    (heq : ∀ a ∈ xs, ∀ b ∈ xs, order a b = order' a b) : StableSort order' xs ys where
  perm := h.perm
  ascending := by
    refine h.ascending.imp_of_mem fun {a b} ha hb hle => ?_
    rw [← heq a (h.perm.mem_iff.1 ha) b (h.perm.mem_iff.1 hb)]
    exact hle
  stable x hx := by
    have hsorted : (ys.filter fun y => order' x y = .eq) = ys.filter fun y => order x y = .eq :=
      List.filter_congr fun y hy => by rw [heq x hx y (h.perm.mem_iff.1 hy)]
    have hgiven : (xs.filter fun y => order' x y = .eq) = xs.filter fun y => order x y = .eq :=
      List.filter_congr fun y hy => by rw [heq x hx y hy]
    rw [hsorted, hgiven]
    exact h.stable x hx

/-- A list whose members all compare equal is sorted already. -/
theorem self (h : ∀ a ∈ xs, ∀ b ∈ xs, order a b = .eq) : StableSort order xs xs where
  perm := .refl xs
  ascending := List.pairwise_of_forall_mem_list fun a ha b hb => by rw [h a ha b hb]; rfl
  stable _ _ := rfl

/-- Merge sort is stable: the members that compare equal to one of them are in order before it, so
they are a sublist of what it makes, and there are no more of them. -/
theorem mergeSort (order : α → α → Ordering) [Std.TransCmp order] (xs : List α) :
    StableSort order xs (xs.mergeSort fun a b => (order a b).isLE) := by
  have htrans : ∀ a b c, (order a b).isLE = true → (order b c).isLE = true →
      (order a c).isLE = true := fun _ _ _ => Std.TransCmp.isLE_trans
  have htotal : ∀ a b, ((order a b).isLE || (order b a).isLE) = true := by
    intro a b
    have hswap : order a b = (order b a).swap := Std.OrientedCmp.eq_swap
    rw [hswap]
    cases order b a <;> rfl
  have hperm := List.mergeSort_perm xs fun a b => (order a b).isLE
  refine ⟨hperm, List.pairwise_mergeSort htrans htotal xs, fun x _ => ?_⟩
  let ties := xs.filter fun y => order x y = .eq
  have hties : ties.Pairwise fun a b => (order a b).isLE = true := by
    refine List.pairwise_of_forall_mem_list fun a ha b hb => ?_
    have hxa : order x a = .eq := by simpa using List.of_mem_filter ha
    have hxb : order x b = .eq := by simpa using List.of_mem_filter hb
    have hab : order a b = .eq := Std.TransCmp.eq_trans (Std.OrientedCmp.eq_symm hxa) hxb
    rw [hab]
    rfl
  have hsub := (List.sublist_mergeSort htrans htotal hties List.filter_sublist).filter
    fun y => order x y = .eq
  rw [List.filter_filter] at hsub
  simp only [Bool.and_self] at hsub
  exact (hsub.eq_of_length (hperm.filter _).length_eq.symm).symm

end StableSort

theorem RowStream.collect_eq_ok {s : RowStream} {rows : List Row} :
    s.collect = .ok rows ↔ s.rows = rows ∧ s.fault = none := by
  obtain ⟨given, fault⟩ := s
  cases fault <;> simp [collect]

theorem RowStream.collect_ofResult (x : Except EvalError (List Row)) :
    (ofResult x).collect = x := by
  cases x <;> rfl

/-- A map over rows drains if the dataset does and every row has an image. -/
theorem DataSet.collect_mapRows_eq_ok {d : DataSet} {schema : Schema}
    {f : Row → Except EvalError Row} {images : List Row} :
    (d.mapRows schema f).collect = .ok images ↔ ∃ rows, d.collect = .ok rows ∧
      List.Forall₂ (fun source image => f source = .ok image) rows images := by
  constructor
  · intro h
    obtain ⟨himages, hfault⟩ := RowStream.collect_eq_ok.1 h
    obtain ⟨hnone, hmapped⟩ := RowStream.forall₂_mapRows hfault
    refine ⟨d.stream.rows, RowStream.collect_eq_ok.2 ⟨rfl, hnone⟩, ?_⟩
    rw [← himages]
    exact hmapped
  · rintro ⟨rows, hrows, hmapped⟩
    obtain ⟨rfl, hnone⟩ := RowStream.collect_eq_ok.1 hrows
    have hstream : (d.mapRows schema f).stream = ⟨images, d.stream.fault⟩ :=
      RowStream.mapRows_eq hmapped
    exact RowStream.collect_eq_ok.2 ⟨by rw [hstream], by rw [hstream]; exact hnone⟩

/-- The members of a group are rows of the dataset. -/
theorem DataSet.mem_of_groupBy {d : DataSet} {keys : List Component} {groups : List Group}
    {g : Group} {r : Row} (h : d.groupBy keys = .ok groups) (hg : g ∈ groups) (hr : r ∈ g.rows) :
    r ∈ d.stream.rows := by
  obtain ⟨positions, -, h⟩ := bind_eq_ok.1 h
  obtain ⟨rows, hrows, h⟩ := bind_eq_ok.1 h
  rw [← Except.ok.inj h] at hg
  rw [(RowStream.collect_eq_ok.1 hrows).1, ← (grouped_ofRows positions rows).rows_perm.mem_iff]
  exact List.mem_flatten.2 ⟨_, List.mem_map_of_mem hg, hr⟩

/-- What a dataset drains to are rows of its schema. -/
theorem DataSet.WellFormed.of_mem {d : DataSet} {rows : List Row} {r : Row} (hd : d.WellFormed)
    (hrows : d.collect = .ok rows) (hr : r ∈ rows) : r.schema = d.schema ∧ r.WellFormed := by
  rw [← (RowStream.collect_eq_ok.1 hrows).1] at hr
  exact hd r hr

/-! ## Keys -/

/-- The value of a component, by its name. -/
def Row.valueOf (r : Row) (c : Component) : Scalar := (r.get? c.name).getD (.null c.domain)

/-- The order of two rows by sort keys: by the first of them in which they differ, in its direction.
-/
def Row.orderBy (a b : Row) : List (Component × SortDirection) → Ordering
  | [] => .eq
  | (c, direction) :: rest =>
    (direction.apply ((a.valueOf c).order (b.valueOf c))).then (orderBy a b rest)

theorem Schema.positionOf?_of_getElem? {s : Schema} {i : Nat} {c : Component}
    (h : s.components[i]? = some c) : s.positionOf? c.name = some i := by
  obtain ⟨j, hj, hget⟩ := positionOf?_of_mem (List.mem_of_getElem? h)
  have hlt : i < s.components.length := (List.getElem?_eq_some_iff.1 h).1
  have hij : i = j :=
    (List.getElem?_inj hlt (List.Nodup.of_map _ s.names_nodup)).1 (h.trans hget.symm)
  rw [hij]
  exact hj

namespace Row

variable {r : Row} {c : Component}

theorem WellFormed.get?_eq_valueOf (h : r.WellFormed) (hc : c ∈ r.schema.components) :
    r.get? c.name = some (r.valueOf c) := by
  obtain ⟨v, hv, -⟩ := h.get? hc
  rw [valueOf, hv, Option.getD_some]

theorem WellFormed.describes_valueOf (h : r.WellFormed) (hc : c ∈ r.schema.components) :
    c.domain.Describes (r.valueOf c).domain := by
  obtain ⟨v, hv, -, hdomain⟩ := h.get? hc
  rw [valueOf, hv, Option.getD_some]
  exact hdomain

/-- Reading the place of a component is reading the component. -/
theorem WellFormed.valueAt_eq (h : r.WellFormed) {i : Nat}
    (hi : r.schema.components[i]? = some c) : r.valueAt i = r.valueOf c := by
  have hplace := h.holds hi (Schema.positionOf?_of_getElem? hi)
  rw [valueOf, hplace.byName, Option.getD_some]

/-- The entries of a row are its components with their values. -/
theorem WellFormed.entries_eq (h : r.WellFormed) :
    r.entries = r.schema.components.map fun c => (c, r.valueOf c) := by
  refine List.ext_getElem? fun i => ?_
  rw [List.getElem?_map]
  cases hi : r.schema.components[i]? with
  | none =>
    have hshort : r.schema.components.length ≤ i := List.getElem?_eq_none_iff.1 hi
    rw [Option.map_none, List.getElem?_eq_none_iff, entries, List.length_zip]
    omega
  | some c =>
    obtain ⟨v, hv, -⟩ := h.getElem? hi
    have hat : r.valueOf c = v := by rw [← h.valueAt_eq hi, valueAt, hv, Option.getD_some]
    rw [Option.map_some, hat]
    exact List.getElem?_zip_eq_some.2 ⟨hi, hv⟩

theorem WellFormed.entriesWith_eq (h : r.WellFormed) (role : Role) :
    r.entriesWith role = (r.schema.withRole role).map fun c => (c, r.valueOf c) := by
  rw [entriesWith, h.entries_eq, List.filter_map]
  rfl

theorem WellFormed.values_eq (h : r.WellFormed) :
    r.values = r.schema.components.map r.valueOf := by
  have hvalues : r.values = r.entries.map Prod.snd := by
    rw [entries, List.map_snd_zip]
    exact h.length.le
  rw [hvalues, h.entries_eq, List.map_map]
  rfl

/-- Two rows of one schema with the same values, whatever their lineages are. -/
def SameValues (a b : Row) : Prop := a.schema = b.schema ∧ a.values = b.values

theorem WellFormed.sameValues {r' : Row} (h : r.WellFormed) (h' : r'.WellFormed)
    (hschema : r.schema = r'.schema)
    (hget : ∀ c ∈ r.schema.components, r.get? c.name = r'.get? c.name) : r.SameValues r' := by
  refine ⟨hschema, ?_⟩
  rw [h.values_eq, h'.values_eq, ← hschema]
  refine List.map_congr_left fun c hc => ?_
  rw [valueOf, valueOf, hget c hc]

end Row

namespace Window

/-- What the keys of a window are.  Sort keys left out are all identifiers ascending, or none;
partition keys left out are the identifiers that do not sort, or none.  Partition keys that are
given are identifiers and not among the sort keys that are given. -/
structure Keys (schema : Schema) (spec : WindowSpec) (defaults : WindowDefaults)
    (ordering : List (Component × SortDirection)) (partition : List Component) : Prop where
  ordering_default : defaults = .identifiers → spec.orderBy = [] →
    ordering = schema.identifiers.map fun c => (c, .asc)
  ordering_given : defaults = .whole ∨ spec.orderBy ≠ [] →
    List.Forall₂ (fun item e => schema.component? item.name = some e.1 ∧ item.direction = e.2)
      spec.orderBy ordering
  partition_default : defaults = .identifiers → spec.partitionBy = [] →
    partition = schema.identifiers.filter fun c => ! ordering.any (·.1 = c)
  partition_given : defaults = .whole ∨ spec.partitionBy ≠ [] →
    List.Forall₂ (fun name c => schema.component? name = some c ∧ c.role = .identifier ∧
      (spec.orderBy ≠ [] → ∀ e ∈ ordering, e.1 ≠ c)) spec.partitionBy partition

variable {schema : Schema} {spec : WindowSpec} {defaults : WindowDefaults} {w : Window}
  {ordering : List (Component × SortDirection)} {partition : List Component}

theorem Keys.role_partition (h : Keys schema spec defaults ordering partition) {c : Component}
    (hc : c ∈ partition) : c.role = .identifier := by
  by_cases hgiven : defaults = .whole ∨ spec.partitionBy ≠ []
  · obtain ⟨name, -, -, hrole, -⟩ := exists_of_forall₂ (h.partition_given hgiven).flip hc
    exact hrole
  · obtain ⟨hdefaults, hnone⟩ := not_or.1 hgiven
    cases defaults with
    | whole => exact absurd rfl hdefaults
    | identifiers =>
      rw [h.partition_default rfl (not_not.1 hnone)] at hc
      exact (Schema.mem_identifiers.1 (List.mem_of_mem_filter hc)).2

/-- A window whose sort keys name no measures sorts by no measures. -/
theorem Keys.role_ordering (h : Keys schema spec defaults ordering partition)
    (hspec : ∀ item ∈ spec.orderBy, ∀ c, schema.component? item.name = some c → c.role ≠ .measure)
    {e : Component × SortDirection} (he : e ∈ ordering) : e.1.role ≠ .measure := by
  by_cases hgiven : defaults = .whole ∨ spec.orderBy ≠ []
  · obtain ⟨item, hitem, hname, -⟩ := exists_of_forall₂ (h.ordering_given hgiven).flip he
    exact hspec item hitem e.1 hname
  · obtain ⟨hdefaults, hnone⟩ := not_or.1 hgiven
    cases defaults with
    | whole => exact absurd rfl hdefaults
    | identifiers =>
      rw [h.ordering_default rfl (not_not.1 hnone)] at he
      obtain ⟨c, hc, rfl⟩ := List.mem_map.1 he
      rw [(Schema.mem_identifiers.1 hc).2]
      decide

theorem sortKeys?_eq_ok {items : List OrderItem} {given : List (Component × SortDirection)} :
    sortKeys? schema items = .ok given ↔
      List.Forall₂ (fun item e => schema.component? item.name = some e.1 ∧ item.direction = e.2)
        items given := by
  unfold sortKeys?
  rw [mapM_eq_ok]
  constructor
  · refine fun h => h.imp fun item e he => ?_
    obtain ⟨c, hc, rfl⟩ := map_eq_ok.1 he
    exact ⟨Schema.require_eq_ok.1 hc, rfl⟩
  · refine fun h => h.imp fun item e he => map_eq_ok.2 ⟨e.1, Schema.require_eq_ok.2 he.1, ?_⟩
    rw [he.2]

theorem partitionKey?_eq_ok {given : List (Component × SortDirection)} {name : String}
    {c : Component} :
    partitionKey? schema given name = .ok c ↔
      schema.component? name = some c ∧ c.role = .identifier ∧ ∀ e ∈ given, e.1 ≠ c := by
  have hany : given.any (·.1 = c) = false ↔ ∀ e ∈ given, e.1 ≠ c := by simp
  unfold partitionKey?
  rw [bind_eq_ok, ← and_assoc, ← Schema.requireIdentifier_eq_ok, ← hany]
  constructor
  · rintro ⟨c', hc', h⟩
    split at h
    · nomatch h
    · rename_i hnone
      cases h
      exact ⟨hc', Bool.not_eq_true _ ▸ hnone⟩
  · rintro ⟨hc, hnone⟩
    exact ⟨c, hc, by rw [hnone]; rfl⟩

/-- Sort keys that are given stay, and so do those of a window that leaves none out. -/
theorem defaultOrdering_of_given {given : List (Component × SortDirection)}
    (h : defaults = .whole ∨ given.isEmpty = false) :
    defaultOrdering schema defaults given = given := by
  rcases h with rfl | hgiven
  · simp [defaultOrdering]
  · simp [defaultOrdering, hgiven]

theorem defaultPartition_of_given {named : List Component}
    (h : defaults = .whole ∨ named.isEmpty = false) :
    defaultPartition schema defaults ordering named = named := by
  rcases h with rfl | hgiven
  · simp [defaultPartition]
  · simp [defaultPartition, hgiven]

/-- A window over a schema has the keys of its specification, the sort keys by their places. -/
theorem keys_of_resolve? (h : resolve? schema spec defaults = .ok w) :
    ∃ ordering, Keys schema spec defaults ordering w.partition ∧
      List.Forall₂ (fun e p => schema.components[p.1]? = some e.1 ∧ p.2 = e.2)
        ordering w.ordering := by
  obtain ⟨-, given, hgiven, hplaces⟩ := resolve?_eq_ok h
  obtain ⟨given', hgiven', h⟩ := bind_eq_ok.1 h
  rw [hgiven] at hgiven'
  cases hgiven'
  obtain ⟨named, hnamed, h⟩ := bind_eq_ok.1 h
  have hpartition : defaultPartition schema defaults (defaultOrdering schema defaults given) named =
      w.partition := by rw [← Except.ok.inj h]
  have hitems := sortKeys?_eq_ok.1 hgiven
  have hnames := mapM_eq_ok.1 hnamed
  have hgivenEmpty : given.isEmpty = spec.orderBy.isEmpty := forall₂_isEmpty hitems.flip
  have hnamedEmpty : named.isEmpty = spec.partitionBy.isEmpty := forall₂_isEmpty hnames.flip
  have hordering (h : defaults = .whole ∨ spec.orderBy ≠ []) :
      defaultOrdering schema defaults given = given :=
    defaultOrdering_of_given (h.imp_right fun hne => by simpa [hgivenEmpty] using hne)
  refine ⟨defaultOrdering schema defaults given, ?_, hplaces.imp fun e p hp => ⟨?_, hp.2⟩⟩
  · rw [← hpartition]
    constructor
    case ordering_default =>
      intro hdefaults hempty
      simp [defaultOrdering, hgivenEmpty, hdefaults, hempty]
    case ordering_given =>
      intro h
      rw [hordering h]
      exact hitems
    case partition_default =>
      intro hdefaults hempty
      simp [defaultPartition, hnamedEmpty, hdefaults, hempty]
    case partition_given =>
      intro h
      rw [defaultPartition_of_given (h.imp_right fun hne => by simpa [hnamedEmpty] using hne)]
      refine hnames.imp fun name c hc => ?_
      obtain ⟨hname, hrole, hsorts⟩ := partitionKey?_eq_ok.1 hc
      refine ⟨hname, hrole, fun hne => ?_⟩
      rw [hordering (Or.inr hne)]
      exact hsorts
  · exact of_decide_eq_true (Option.filter_eq_some_iff.1 hp.1).2

/-! ## Order -/

theorem transCmp_apply {α : Type} {order : α → α → Ordering} [Std.TransCmp order]
    (direction : SortDirection) : Std.TransCmp fun a b => direction.apply (order a b) := by
  cases direction with
  | asc => exact inferInstanceAs (Std.TransCmp order)
  | desc =>
    have hswap : (fun a b => SortDirection.desc.apply (order a b)) = fun a b => order b a := by
      funext a b
      exact Std.OrientedCmp.eq_swap.symm
    rw [hswap]
    exact Std.TransCmp.opposite

instance (i : Nat) : Std.TransCmp fun a b : Row => (a.valueAt i).order (b.valueAt i) where
  eq_swap := Std.OrientedCmp.eq_swap
  isLE_trans := Std.TransCmp.isLE_trans

instance (ordering : List (Nat × SortDirection)) :
    Std.TransCmp fun a b : Row => orderBy a b ordering := by
  induction ordering with
  | nil => exact { eq_swap := rfl, isLE_trans := fun _ _ => rfl }
  | cons e rest ih =>
    obtain ⟨i, direction⟩ := e
    have hfirst : Std.TransCmp fun a b : Row =>
        direction.apply ((a.valueAt i).order (b.valueAt i)) := transCmp_apply direction
    exact inferInstanceAs (Std.TransCmp (compareLex
      (fun a b : Row => direction.apply ((a.valueAt i).order (b.valueAt i)))
      fun a b => orderBy a b rest))

instance (w : Window) : Std.TransCmp w.order :=
  inferInstanceAs (Std.TransCmp fun a b => orderBy a b w.ordering)

/-- Rows of the schema compare by the components in the places of the sort keys. -/
theorem order_eq_orderBy {a b : Row} (ha : a.WellFormed) (hb : b.WellFormed)
    (hschema : a.schema = schema ∧ b.schema = schema)
    (hplaces : List.Forall₂ (fun e p => schema.components[p.1]? = some e.1 ∧ p.2 = e.2)
      ordering w.ordering) : w.order a b = a.orderBy b ordering := by
  unfold order
  generalize w.ordering = places at hplaces
  induction hplaces with
  | nil => rfl
  | @cons e p rest _ he _ ih =>
    obtain ⟨c, direction⟩ := e
    obtain ⟨i, direction'⟩ := p
    obtain ⟨hi, rfl⟩ := he
    have hvalues : a.valueAt i = a.valueOf c ∧ b.valueAt i = b.valueOf c :=
      ⟨ha.valueAt_eq (hschema.1 ▸ hi), hb.valueAt_eq (hschema.2 ▸ hi)⟩
    rw [orderBy, Row.orderBy, hvalues.1, hvalues.2, ih]

/-- A window sorts the rows of a partition stably. -/
theorem stableSort_sortRows (w : Window) (rows : List Row) :
    StableSort w.order rows (w.sortRows rows) := by
  unfold sortRows isOrdered
  cases hordering : w.ordering with
  | nil =>
    refine .self fun a _ b _ => ?_
    rw [order, hordering]
    rfl
  | cons e rest => exact StableSort.mergeSort w.order rows

/-- Rows that are in order stay as they are. -/
theorem sortRows_of_pairwise {w : Window} {rows : List Row}
    (h : rows.Pairwise fun a b => (w.order a b).isLE = true) : w.sortRows rows = rows := by
  unfold sortRows
  split
  · exact List.mergeSort_of_pairwise h
  · rfl

/-- Two rows that are not in order change places. -/
theorem sortRows_pair {w : Window} {a b : Row} (h : w.order a b = .gt) :
    w.sortRows [a, b] = [b, a] := by
  unfold sortRows isOrdered
  cases hordering : w.ordering with
  | nil =>
    rw [order, hordering] at h
    nomatch h
  | cons e rest => simp [List.mergeSort, h]

/-- Without keys all rows are in one partition. -/
theorem partitions_whole {d : DataSet} {ordering : List (Nat × SortDirection)} {rows : List Row}
    (hrows : d.collect = .ok rows) (hsome : rows ≠ []) :
    partitions ⟨[], ordering⟩ d = .ok [⟨[], sortRows ⟨[], ordering⟩ rows⟩] := by
  have hgroups : d.groupBy [] = .ok [⟨[], rows⟩] := by
    rw [← (grouped_ofRows [] rows).unique (grouped_whole hsome)]
    exact bind_eq_ok.2 ⟨[], rfl, bind_eq_ok.2 ⟨rows, hrows, rfl⟩⟩
  rw [partitions, hgroups]
  rfl

/-- The members of a sorted partition are rows of the dataset. -/
theorem mem_of_partitions {d : DataSet} {w : Window} {groups : List Group} {g : Group} {r : Row}
    (h : w.partitions d = .ok groups) (hg : g ∈ groups) (hr : r ∈ g.rows) : r ∈ d.stream.rows := by
  obtain ⟨unsorted, hunsorted, h⟩ := bind_eq_ok.1 h
  rw [← Except.ok.inj h] at hg
  obtain ⟨g', hg', rfl⟩ := List.mem_map.1 hg
  exact DataSet.mem_of_groupBy hunsorted hg' ((w.stableSort_sortRows g'.rows).perm.mem_iff.1 hr)

/-! ## Partitions -/

/-- The partitions of a list of rows: keys in strictly ascending order, each the key of the first
row that carries it, with all rows that do in stable order; every row carries one of the keys. -/
structure Partitioned (ordering : List (Component × SortDirection)) (partition : List Component)
    (rows : List Row) (groups : List Group) : Prop where
  ascending : groups.Pairwise fun g g' => Scalar.orderLists g.key g'.key = .lt
  sorted : ∀ g ∈ groups, StableSort (fun a b => Row.orderBy a b ordering)
    (rows.filter fun r => Scalar.orderLists (partition.map r.valueOf) g.key = .eq) g.rows
  first : ∀ g ∈ groups, ∃ first rest,
    (rows.filter fun r => Scalar.orderLists (partition.map r.valueOf) g.key = .eq) =
      first :: rest ∧ g.key = partition.map first.valueOf
  covers : ∀ r ∈ rows, ∃ g ∈ groups, Scalar.orderLists (partition.map r.valueOf) g.key = .eq
  perm : (groups.map Group.rows).flatten.Perm rows

namespace Partitioned

variable {rows : List Row} {groups : List Group}

theorem mem (h : Partitioned ordering partition rows groups) {g : Group} (hg : g ∈ groups) {r : Row}
    (hr : r ∈ g.rows) : r ∈ rows :=
  h.perm.mem_iff.1 (List.mem_flatten.2 ⟨_, List.mem_map_of_mem hg, hr⟩)

/-- The rows of a partition carry its key. -/
theorem key_of_mem (h : Partitioned ordering partition rows groups) {g : Group} (hg : g ∈ groups)
    {r : Row} (hr : r ∈ g.rows) : Scalar.orderLists (partition.map r.valueOf) g.key = .eq := by
  have hmem := (h.sorted g hg).perm.mem_iff.1 hr
  exact of_decide_eq_true (List.mem_filter.1 hmem).2

/-- The key of a partition is that of one of the rows. -/
theorem exists_key (h : Partitioned ordering partition rows groups) {g : Group} (hg : g ∈ groups) :
    ∃ first ∈ rows, g.key = partition.map first.valueOf := by
  obtain ⟨first, rest, hfirst, hkey⟩ := h.first g hg
  refine ⟨first, ?_, hkey⟩
  have hmem : first ∈ first :: rest := List.mem_cons_self
  rw [← hfirst] at hmem
  exact List.mem_of_mem_filter hmem

/-- Parts as long as the partitions are together as long as the rows. -/
theorem length_flatten (h : Partitioned ordering partition rows groups) {parts : List (List Row)}
    (hparts : List.Forall₂ (fun g part => part.length = (Group.rows g).length) groups parts) :
    parts.flatten.length = rows.length := by
  have hlengths : parts.map List.length = (groups.map Group.rows).map List.length := by
    rw [List.map_map]
    exact map_eq_map_of_forall₂ hparts.flip fun _ _ h => h
  rw [← h.perm.length_eq, List.length_flatten, List.length_flatten, hlengths]

end Partitioned

theorem perPartition_eq_ok {groups : List Group} {process : List Row → Except EvalError (List Row)}
    {rows : List Row} :
    perPartition groups process = .ok rows ↔
      ∃ parts, List.Forall₂ (fun g part => process (Group.rows g) = .ok part) groups parts ∧
        parts.flatten = rows := by
  refine map_eq_ok.trans (exists_congr fun parts => and_congr_left fun _ => ?_)
  exact mapM_eq_ok

/-- Reading the places of components is reading the components. -/
theorem key_eq_map_valueOf {r : Row} (hr : r.WellFormed) {keys : List Component}
    {positions : List Nat}
    (hplaces : List.Forall₂ (fun k i => r.schema.components[i]? = some k) keys positions) :
    r.key positions = keys.map r.valueOf := by
  unfold Row.key
  induction hplaces with
  | nil => rfl
  | cons hk _ ih => rw [List.map_cons, List.map_cons, hr.valueAt_eq hk, ih]

/-- Groups of rows of the schema, sorted, are the partitions of the rows. -/
theorem partitioned_of_grouped {rows : List Row} {positions : List Nat} {groups : List Group}
    (hgroups : Grouped positions rows groups) (hrows : ∀ r ∈ rows, r.schema = schema ∧ r.WellFormed)
    (hplaces : List.Forall₂ (fun k i => schema.components[i]? = some k) partition positions)
    (hordering : List.Forall₂ (fun e p => schema.components[p.1]? = some e.1 ∧ p.2 = e.2)
      ordering w.ordering) :
    Partitioned ordering partition rows
      (groups.map fun g => { g with rows := w.sortRows g.rows }) := by
  have hkey : ∀ r ∈ rows, r.key positions = partition.map r.valueOf := by
    intro r hr
    obtain ⟨rfl, hfits⟩ := hrows r hr
    exact key_eq_map_valueOf hfits hplaces
  have hmembers : ∀ g ∈ groups, g.rows =
      rows.filter fun r => Scalar.orderLists (partition.map r.valueOf) g.key = .eq := by
    intro g hg
    rw [hgroups.rows_eq g hg]
    exact List.filter_congr fun r hr => by rw [hkey r hr]
  have hgiven : ∀ g ∈ groups, ∀ r ∈ g.rows, r ∈ rows := by
    intro g hg r hr
    rw [hmembers g hg] at hr
    exact List.mem_of_mem_filter hr
  refine ⟨List.pairwise_map.2 hgroups.ascending, ?_, ?_, ?_, ?_⟩
  · intro sorted hsorted
    obtain ⟨g, hg, rfl⟩ := List.mem_map.1 hsorted
    rw [← hmembers g hg]
    refine (w.stableSort_sortRows g.rows).congr fun a ha b hb => ?_
    obtain ⟨haschema, ha⟩ := hrows a (hgiven g hg a ha)
    obtain ⟨hbschema, hb⟩ := hrows b (hgiven g hg b hb)
    exact order_eq_orderBy ha hb ⟨haschema, hbschema⟩ hordering
  · intro sorted hsorted
    obtain ⟨g, hg, rfl⟩ := List.mem_map.1 hsorted
    obtain ⟨first, rest, hfirst, hfirstKey⟩ := hgroups.first g hg
    have hmem : first ∈ rows := hgiven g hg first (by simp [hfirst])
    refine ⟨first, rest, ?_, hfirstKey.trans (hkey first hmem)⟩
    rw [← hmembers g hg, hfirst]
  · intro r hr
    obtain ⟨g, hg, hgkey⟩ := hgroups.covers r hr
    refine ⟨_, List.mem_map_of_mem hg, ?_⟩
    rw [← hkey r hr]
    exact hgkey
  · refine List.Perm.trans (List.Perm.flatten_congr ?_) hgroups.rows_perm
    rw [List.map_map, List.forall₂_map_left_iff, List.forall₂_map_right_iff, List.forall₂_same]
    exact fun g _ => (w.stableSort_sortRows g.rows).perm

/-- The sorted partitions of a dataset that drains are those of one pass over its rows. -/
theorem partitions_eq_ok {d : DataSet} {rows : List Row} {positions : List Nat}
    (hpositions : d.keyPositions w.partition = .ok positions) (hrows : d.collect = .ok rows) :
    w.partitions d = .ok ((PartitionMap.ofRows positions (numbered rows)).groups.map fun g =>
      { g with rows := w.sortRows g.rows }) :=
  bind_eq_ok.2 ⟨_, bind_eq_ok.2 ⟨positions, hpositions, bind_eq_ok.2 ⟨rows, hrows, rfl⟩⟩, rfl⟩

/-- A window over the schema of a dataset cuts it into its partitions, and sorts them. -/
theorem partitioned_partitions {d : DataSet} {rows : List Row} (hd : d.WellFormed)
    (hrows : d.collect = .ok rows) (hw : resolve? d.schema spec defaults = .ok w) :
    ∃ ordering groups, w.partitions d = .ok groups ∧
      Keys d.schema spec defaults ordering w.partition ∧
      Partitioned ordering w.partition rows groups := by
  obtain ⟨ordering, hkeys, hordering⟩ := keys_of_resolve? hw
  obtain ⟨positions, hpositions, hplaces⟩ := keyPositions_eq_ok (resolve?_eq_ok hw).1
  exact ⟨ordering, _, partitions_eq_ok hpositions hrows, hkeys,
    partitioned_of_grouped (grouped_ofRows positions rows) (fun _ => hd.of_mem hrows) hplaces
      hordering⟩

/-- Without sort keys a window only cuts. -/
theorem partitions_unsorted (d : DataSet) (keys : List Component) :
    Window.partitions ⟨keys, []⟩ d = d.groupBy keys := by
  have hrows : (fun g : Group => { g with rows := sortRows ⟨keys, []⟩ g.rows }) = id := rfl
  unfold Window.partitions
  rw [hrows]
  simp

/-- A window that names no sort keys has the partition keys that a grouping has. -/
theorem resolve?_unsorted {names : List String} :
    resolve? schema ⟨names, []⟩ .whole = .ok w ↔
      ∃ keys, Statistic.groupKeys? schema names = .ok keys ∧ w = ⟨keys, []⟩ := by
  have hkeys (keys : List Component) :
      names.mapM (partitionKey? schema []) = .ok keys ↔
        Statistic.groupKeys? schema names = .ok keys := by
    unfold Statistic.groupKeys?
    rw [mapM_eq_ok, mapM_eq_ok]
    have hkey (name : String) (c : Component) : partitionKey? schema [] name = .ok c ↔
        schema.requireIdentifier .groupBy name = .ok c := by
      rw [partitionKey?_eq_ok, Schema.requireIdentifier_eq_ok]
      simp
    simp only [hkey]
  constructor
  · intro h
    obtain ⟨given, hgiven, h⟩ := bind_eq_ok.1 h
    cases hgiven
    obtain ⟨keys, hnamed, h⟩ := bind_eq_ok.1 h
    exact ⟨keys, (hkeys keys).1 hnamed, (Except.ok.inj h).symm⟩
  · rintro ⟨keys, hnamed, rfl⟩
    exact bind_eq_ok.2 ⟨[], rfl, bind_eq_ok.2 ⟨keys, (hkeys keys).2 hnamed, rfl⟩⟩

/-- A partition that is not sorted has the rows of its key as they come. -/
theorem Partitioned.rows_eq {rows : List Row} {groups : List Group}
    (h : Partitioned [] partition rows groups) {g : Group} (hg : g ∈ groups) :
    g.rows = rows.filter fun r => Scalar.orderLists (partition.map r.valueOf) g.key = .eq := by
  obtain ⟨first, rest, hfirst, -⟩ := h.first g hg
  have hstable := (h.sorted g hg).stable first (by rw [hfirst]; exact List.mem_cons_self)
  have hall (xs : List Row) : (xs.filter fun r => Row.orderBy first r [] = .eq) = xs :=
    List.filter_eq_self.2 fun _ _ => rfl
  rwa [hall, hall] at hstable

/-- No two partitions have equal keys. -/
theorem Partitioned.eq_of_key {rows : List Row} {groups : List Group}
    (h : Partitioned ordering partition rows groups) {g g' : Group} (hg : g ∈ groups)
    (hg' : g' ∈ groups) (hkey : Scalar.orderLists g.key g'.key = .eq) : g = g' :=
  Scalar.eq_of_ascending h.ascending hg hg' hkey

/-- Grouping by identifiers is what a window does that names them and does not sort. -/
theorem partitioned_groupBy {d : DataSet} {rows : List Row} {names : List String}
    {keys : List Component} (hd : d.WellFormed) (hrows : d.collect = .ok rows)
    (hkeys : Statistic.groupKeys? d.schema names = .ok keys) :
    ∃ groups, d.groupBy keys = .ok groups ∧ Partitioned [] keys rows groups := by
  obtain ⟨ordering, groups, hgroups, hspec, hpartitioned⟩ :=
    partitioned_partitions hd hrows (resolve?_unsorted.2 ⟨keys, hkeys, rfl⟩)
  have hnone := hspec.ordering_given (Or.inl rfl)
  cases hnone
  exact ⟨groups, (partitions_unsorted d keys).symm.trans hgroups, hpartitioned⟩

end Window

/-! ## Rows over a window -/

namespace Draft

variable {d : Draft} {s : Schema} {f : Component → Scalar} {c : Component}

/-- Setting components of a schema gives them their values, and changes no other one. -/
theorem get?_setAll_map {cs : List Component} (hcs : ∀ k ∈ cs, k ∈ s.components) {v : Scalar}
    (hc : c ∈ s.components) (hset : c ∈ cs ∧ f c = v ∨ c ∉ cs ∧ d.get? c.name = some v) :
    (d.setAll (cs.map fun c => (c, f c))).get? c.name = some v := by
  have hsame : ∀ e ∈ cs.map fun c => (c, f c), e.1.name = c.name → c ∈ cs ∧ e.2 = f c := by
    intro e he hname
    obtain ⟨k, hk, rfl⟩ := List.mem_map.1 he
    cases Schema.eq_of_name (hcs k hk) hc hname
    exact ⟨hk, rfl⟩
  obtain ⟨v', hv', rfl⟩ : ∃ v', (d.setAll (cs.map fun c => (c, f c))).get? c.name = some v' ∧
      v' = v := by
    rcases hset with ⟨hmem, hv⟩ | ⟨hmem, hv⟩
    · refine get?_setAll (Or.inr ⟨(c, f c), List.mem_map_of_mem hmem, rfl⟩) fun e he hname => ?_
      exact (hsame e he hname).2.trans hv
    · exact get?_setAll (Or.inl ⟨v, hv, rfl⟩) fun e he hname =>
        absurd (hsame e he hname).1 hmem
  exact hv'

/-- Setting the components in a role gives them their values, and changes no other one. -/
theorem get?_setAll_withRole {role : Role} {v : Scalar} (hc : c ∈ s.components)
    (hset : c.role = role ∧ f c = v ∨ c.role ≠ role ∧ d.get? c.name = some v) :
    (d.setAll ((s.withRole role).map fun c => (c, f c))).get? c.name = some v := by
  have hmem : c ∈ s.withRole role ↔ c.role = role := by
    rw [Schema.withRole, List.mem_filter, decide_eq_true_iff]
    exact and_iff_right hc
  have hrole : ∀ k ∈ s.withRole role, k ∈ s.components := fun _ hk => List.mem_of_mem_filter hk
  refine get?_setAll_map hrole hc ?_
  rwa [hmem]

/-- A draft with values that go with the components makes the row of these values. -/
theorem build_eq_map (lineage : Lineage)
    (h : ∀ c ∈ s.components, d.get? c.name = some (f c) ∧ c.domain.Describes (f c).domain) :
    d.build s lineage = .ok ⟨s, s.components.map f, lineage⟩ := by
  refine build_eq_ok.2 ⟨rfl, rfl, ?_⟩
  rw [List.forall₂_map_right_iff, List.forall₂_same]
  intro c hc
  obtain ⟨hget, hdomain⟩ := h c hc
  rw [valueFor, hget]
  exact Component.store_of_describes hdomain

end Draft

/-- A row of given values has them under the names of the components. -/
theorem Row.get?_map {s : Schema} {f : Component → Scalar} {lineage : Lineage} {c : Component}
    (hc : c ∈ s.components) : Row.get? ⟨s, s.components.map f, lineage⟩ c.name = some (f c) := by
  obtain ⟨i, hi, hget⟩ := Schema.positionOf?_of_mem hc
  simp [Row.get?, hi, hget]

namespace Window

/-- A row hands on its identifiers and attributes. -/
theorem get?_ownValues {own : Row} (hown : own.WellFormed) {c : Component}
    (hc : c ∈ own.schema.components) (hrole : c.role ≠ .measure) :
    (ownValues own).get? c.name = some (own.valueOf c) := by
  rw [ownValues, hown.entriesWith_eq, hown.entriesWith_eq]
  refine Draft.get?_setAll_withRole hc ?_
  cases hidentifier : c.role with
  | measure => exact absurd hidentifier hrole
  | identifier =>
    refine Or.inr ⟨by decide, Draft.get?_setAll_withRole hc (Or.inl ⟨hidentifier, rfl⟩)⟩
  | _ => exact Or.inl ⟨rfl, rfl⟩

/-- The identifiers and attributes of a row can be put together with any measures that go with the
schema, and the row that this makes has the former and the latter. -/
theorem build_recombined {own : Row} (hown : own.WellFormed) {f : Component → Scalar}
    (hf : ∀ m ∈ own.schema.measures, m.domain.Describes (f m).domain) (lineage : Lineage) :
    ∃ made, ((ownValues own).setAll (own.schema.measures.map fun m => (m, f m))).build own.schema
        lineage = .ok made ∧
      made.schema = own.schema ∧ made.lineage = lineage ∧
      (∀ c ∈ own.schema.components, c.role ≠ .measure → made.get? c.name = own.get? c.name) ∧
      ∀ m ∈ own.schema.measures, made.get? m.name = some (f m) := by
  let value (c : Component) : Scalar := if c.role = .measure then f c else own.valueOf c
  have hvalue : ∀ c ∈ own.schema.components,
      ((ownValues own).setAll (own.schema.measures.map fun m => (m, f m))).get? c.name =
          some (value c) ∧ c.domain.Describes (value c).domain := by
    intro c hc
    by_cases hmeasure : c.role = .measure
    · have hset : value c = f c := if_pos hmeasure
      rw [hset]
      exact ⟨Draft.get?_setAll_withRole hc (Or.inl ⟨hmeasure, rfl⟩),
        hf c (Schema.mem_measures.2 ⟨hc, hmeasure⟩)⟩
    · have hkept : value c = own.valueOf c := if_neg hmeasure
      rw [hkept]
      exact ⟨Draft.get?_setAll_withRole hc (Or.inr ⟨hmeasure, get?_ownValues hown hc hmeasure⟩),
        hown.describes_valueOf hc⟩
  refine ⟨_, Draft.build_eq_map lineage hvalue, rfl, rfl, fun c hc hrole => ?_, fun m hm => ?_⟩
  · rw [Row.get?_map hc, hown.get?_eq_valueOf hc]
    exact congrArg some (if_neg hrole)
  · obtain ⟨hmem, hrole⟩ := Schema.mem_measures.1 hm
    rw [Row.get?_map hmem]
    exact congrArg some (if_pos hrole)

end Window

end DataCube
