import DataCube.Proofs.ComposedShifts

/-!
# Shifts in mirrored windows

Flipping the direction of every sort key turns the order of rows around, and where the sort keys
tell the rows of a partition apart it turns the sorted partition around.  A place so many places
before another one is then so many places behind it, so one shift makes of a partition what the
other one makes of it turned around.

* `WindowSpec.flip`, `Window.flip`: a window with every sort direction flipped.
* `Window.order_flip`, `Window.partitions_flip`: its order and its partitions.
* `Shift.measuresAt_reverse`: the measures for a place of a partition that is turned around.
* `lag_mirrors_lead`: the result.
-/

namespace DataCube

/-! ## Flipped directions -/

/-- The other direction. -/
def SortDirection.flip : SortDirection → SortDirection
  | .asc => .desc
  | .desc => .asc

theorem SortDirection.apply_flip (direction : SortDirection) (o : Ordering) :
    direction.flip.apply o = (direction.apply o).swap := by
  cases direction with
  | asc => rfl
  | desc => exact Ordering.swap_swap.symm

/-- The specification with the direction of every sort key flipped. -/
def WindowSpec.flip (spec : WindowSpec) : WindowSpec :=
  { spec with
    orderBy := spec.orderBy.map fun item => { item with direction := item.direction.flip } }

namespace Window

/-- The window with the direction of every sort key flipped. -/
def flip (w : Window) : Window :=
  { w with ordering := w.ordering.map fun e => (e.1, e.2.flip) }

variable {schema : Schema} {spec : WindowSpec} {defaults : WindowDefaults} {w : Window}

theorem sortKeys?_flip {given : List (Component × SortDirection)}
    (h : sortKeys? schema spec.orderBy = .ok given) :
    sortKeys? schema spec.flip.orderBy = .ok (given.map fun e => (e.1, e.2.flip)) := by
  rw [sortKeys?_eq_ok, WindowSpec.flip, List.forall₂_map_left_iff, List.forall₂_map_right_iff]
  refine (sortKeys?_eq_ok.1 h).imp fun item e he => ⟨he.1, ?_⟩
  rw [he.2]

/-- Flipping changes nothing about which components sort. -/
theorem any_flip (given : List (Component × SortDirection)) (c : Component) :
    (given.map fun e => (e.1, e.2.flip)).any (·.1 = c) = given.any (·.1 = c) := by
  rw [List.any_map]
  rfl

/-- A specification that names sort keys amounts to the flipped window if it is flipped. -/
theorem resolve?_flip (hgiven : spec.orderBy ≠ []) (hw : resolve? schema spec defaults = .ok w) :
    resolve? schema spec.flip defaults = .ok w.flip := by
  obtain ⟨given, hkeys, h⟩ := bind_eq_ok.1 hw
  obtain ⟨named, hnamed, h⟩ := bind_eq_ok.1 h
  cases Except.ok.inj h
  have hsome : given.isEmpty = false := by
    rw [forall₂_isEmpty (sortKeys?_eq_ok.1 hkeys).flip]
    simpa using hgiven
  have hflipped : (given.map fun e => (e.1, e.2.flip)).isEmpty = false := by simpa using hsome
  have hnamed' : spec.flip.partitionBy.mapM
      (partitionKey? schema (given.map fun e => (e.1, e.2.flip))) = .ok named := by
    refine Eq.trans ?_ hnamed
    refine congrArg (spec.partitionBy.mapM ·) (funext fun name => ?_)
    simp only [partitionKey?, any_flip]
  refine bind_eq_ok.2 ⟨_, sortKeys?_flip hkeys, bind_eq_ok.2 ⟨named, hnamed', ?_⟩⟩
  rw [defaultOrdering_of_given (Or.inr hsome), defaultOrdering_of_given (Or.inr hflipped)]
  have hpartition : defaultPartition schema defaults (given.map fun e => (e.1, e.2.flip)) named =
      defaultPartition schema defaults given named := by simp only [defaultPartition, any_flip]
  have hplaces : (given.map fun e => (e.1, e.2.flip)).filterMap (fun e =>
      (schema.position? e.1).map fun i => (i, e.2)) =
        (given.filterMap fun e => (schema.position? e.1).map fun i => (i, e.2)).map
          fun e => (e.1, e.2.flip) := by
    rw [List.filterMap_map, List.map_filterMap]
    refine List.filterMap_congr fun e _ => ?_
    show (schema.position? e.1).map _ = ((schema.position? e.1).map _).map _
    rw [Option.map_map]
    rfl
  exact congrArg Except.ok (congrArg₂ Window.mk hpartition hplaces)

theorem orderBy_flip (a b : Row) (ordering : List (Nat × SortDirection)) :
    orderBy a b (ordering.map fun e => (e.1, e.2.flip)) = (orderBy a b ordering).swap := by
  induction ordering with
  | nil => rfl
  | cons e rest ih =>
    rw [List.map_cons, orderBy, orderBy, SortDirection.apply_flip, ih, Ordering.swap_then]

/-- The flipped window orders rows the other way round. -/
theorem order_flip (w : Window) (a b : Row) : w.flip.order a b = w.order b a := by
  have hswap : w.order b a = (w.order a b).swap := Std.OrientedCmp.eq_swap
  rw [hswap]
  exact orderBy_flip a b w.ordering

/-- The flipped window sorts rows that the sort keys tell apart the other way round. -/
theorem sortRows_flip {rows : List Row}
    (hties : (w.sortRows rows).Pairwise fun a b => w.order a b ≠ .eq) :
    w.flip.sortRows rows = (w.sortRows rows).reverse := by
  have hsorted := w.stableSort_sortRows rows
  have hreverse : w.flip.sortRows (w.sortRows rows).reverse = (w.sortRows rows).reverse := by
    refine sortRows_of_pairwise (List.pairwise_reverse.2 ?_)
    refine hsorted.ascending.imp fun {a b} hle => ?_
    rw [order_flip]
    exact hle
  rw [← hreverse]
  refine sortRows_eq (hsorted.perm.symm.trans (List.reverse_perm _).symm) ?_
  rw [hreverse]
  refine List.pairwise_reverse.2 (hties.imp fun {a b} hne => ?_)
  rw [order_flip]
  exact hne

/-- The flipped window has the same partitions, sorted the other way round. -/
theorem partitions_flip {d : DataSet} {groups : List Group}
    (hgroups : w.partitions d = .ok groups) (hties : w.TieFree d) :
    w.flip.partitions d = .ok (groups.map fun g => { g with rows := g.rows.reverse }) := by
  obtain ⟨unsorted, hunsorted, h⟩ := bind_eq_ok.1 hgroups
  have hties := hties groups hgroups
  cases Except.ok.inj h
  refine bind_eq_ok.2 ⟨unsorted, hunsorted, congrArg Except.ok ?_⟩
  rw [List.map_map]
  refine List.map_congr_left fun g hg => ?_
  show ({ g with rows := w.flip.sortRows g.rows } : Group) =
    { g with rows := (w.sortRows g.rows).reverse }
  rw [sortRows_flip (hties _ (List.mem_map_of_mem hg))]

end Window

/-! ## Mirrored places -/

namespace Shift

variable {offset i : Nat} {default : Option Scalar} {label label' : String} {schema : Schema}
  {sorted part part' : List Row} {own r r' : Row}

/-- Turning a partition around turns so many places before a row into so many behind it. -/
theorem measuresAt_reverse (hi : i < sorted.length) :
    lead.measuresAt offset default schema sorted.reverse (sorted.length - 1 - i) =
      lag.measuresAt offset default schema sorted i := by
  have hsource : ((lead.source? offset (sorted.length - 1 - i)).bind fun j => sorted.reverse[j]?) =
      (lag.source? offset i).bind fun j => sorted[j]? := by
    rw [source?, source?, Option.bind_some]
    by_cases hoffset : offset ≤ i
    · have hplace : sorted.length - 1 - i + offset < sorted.length := by omega
      rw [if_pos hoffset, Option.bind_some, List.getElem?_reverse hplace]
      congr 1
      omega
    · have hbeyond : sorted.reverse.length ≤ sorted.length - 1 - i + offset := by
        rw [List.length_reverse]
        omega
      rw [if_neg hoffset, Option.bind_none, List.getElem?_eq_none hbeyond]
  unfold measuresAt
  rw [hsource]

/-- The rows that are made of one row have the same values. -/
theorem row_reverse (hi : i < sorted.length)
    (h : lag.row offset default schema label sorted own i = .ok r)
    (h' : lead.row offset default schema label' sorted.reverse own (sorted.length - 1 - i) =
      .ok r') : r.SameValues r' := by
  obtain ⟨measures, hmeasures, h⟩ := bind_eq_ok.1 h
  obtain ⟨measures', hmeasures', h'⟩ := bind_eq_ok.1 h'
  rw [measuresAt_reverse hi] at hmeasures'
  cases hmeasures.symm.trans hmeasures'
  exact Draft.values_build h h'

/-- A partition has its rows just if it has them when it is turned around. -/
theorem exists_partition_reverse (hsorted : ∀ r ∈ sorted, r.schema = schema ∧ r.WellFormed) :
    (∃ part, lag.partition offset default schema label sorted = .ok part) ↔
      ∃ part', lead.partition offset default schema label' sorted.reverse = .ok part' := by
  have hreverse : ∀ r ∈ sorted.reverse, r.schema = schema ∧ r.WellFormed :=
    fun r hr => hsorted r (List.mem_reverse.1 hr)
  rw [exists_partition_iff hsorted, exists_partition_iff hreverse, List.length_reverse]
  constructor
  · intro h i hi
    have hplace : sorted.length - 1 - (sorted.length - 1 - i) = i := by omega
    have hmeasures := h (sorted.length - 1 - i) (by omega)
    rwa [← measuresAt_reverse (by omega), hplace] at hmeasures
  · intro h i hi
    rw [← measuresAt_reverse hi]
    exact h (sorted.length - 1 - i) (by omega)

/-- One shift makes of a partition what the other one makes of it turned around. -/
theorem partition_reverse (h : lag.partition offset default schema label sorted = .ok part)
    (h' : lead.partition offset default schema label' sorted.reverse = .ok part') :
    List.Forall₂ Row.SameValues part part'.reverse := by
  have hlength : part'.length = sorted.length :=
    (length_partition h').trans sorted.length_reverse
  refine forall₂_of_getElem? ?_ fun i r r' hr hr' => ?_
  · rw [List.length_reverse, hlength, length_partition h]
  · obtain ⟨own, hown, hrow⟩ := row_of_partition h hr
    have hi : i < sorted.length := (List.getElem?_eq_some_iff.1 hown).1
    rw [List.getElem?_reverse (hlength.symm ▸ hi), hlength] at hr'
    obtain ⟨own', hown', hrow'⟩ := row_of_partition h' hr'
    rw [List.getElem?_reverse (by omega), show sorted.length - 1 - (sorted.length - 1 - i) = i by
      omega] at hown'
    cases hown.symm.trans hown'
    exact row_reverse hi hrow hrow'

end Shift

/-- Where the sort keys of a window tell the rows of every partition apart, the one shift in this
window and the other one in the window with every sort direction flipped end with the same error, or
drain to the same partitions, each with the rows of the one in the reverse order of the other. -/
theorem lag_mirrors_lead {x : Expr} {offset : Nat} {default : Option Scalar} {spec : WindowSpec}
    {scope : Scope} {d : DataSet} {rows : List Row} {w : Window}
    (hx : x.eval scope = .ok (.dataset d)) (hd : d.WellFormed) (hrows : d.collect = .ok rows)
    (hgiven : spec.orderBy ≠ []) (hw : Window.resolve? d.schema spec .identifiers = .ok w)
    (hties : w.TieFree d) :
    ∃ lag lead ordering groups,
      (Expr.shift .lag x offset default spec).eval scope = .ok (.dataset lag) ∧
      (Expr.shift .lead x offset default spec.flip).eval scope = .ok (.dataset lead) ∧
      Window.Keys d.schema spec .identifiers ordering w.partition ∧
      Window.Partitioned ordering w.partition rows groups ∧
      (∀ e, lag.collect = .error e ↔ lead.collect = .error e) ∧
      ∀ made, lag.collect = .ok made → ∃ made' parts parts', lead.collect = .ok made' ∧
        made = parts.flatten ∧ made' = parts'.flatten ∧
        List.Forall₂ (fun g part => Shift.PartitionOf .lag offset default
          (Expr.shift .lag x offset default spec).text (Group.rows g) part) groups parts ∧
        List.Forall₂ (fun g part' => Shift.PartitionOf .lead offset default
          (Expr.shift .lead x offset default spec.flip).text (Group.rows g).reverse part') groups
            parts' ∧
        List.Forall₂ (fun part part' => List.Forall₂ Row.SameValues part (List.reverse part')) parts
          parts' := by
  obtain ⟨ordering, groups, hgroups, hkeys, hpartitioned⟩ :=
    Window.partitioned_partitions hd hrows hw
  have hgroups' := Window.partitions_flip hgroups hties
  have hsorted : ∀ g ∈ groups, ∀ r ∈ g.rows, r.schema = d.schema ∧ r.WellFormed :=
    fun g hg r hr => hd.of_mem hrows (hpartitioned.mem hg hr)
  have hdrains : (∃ made, (Shift.lag.run offset default w
      (Expr.shift .lag x offset default spec).text d).collect = .ok made) ↔
        ∃ made', (Shift.lead.run offset default w.flip
          (Expr.shift .lead x offset default spec.flip).text d).collect = .ok made' := by
    rw [Shift.exists_collect_run_iff hgroups, Shift.exists_collect_run_iff hgroups',
      List.forall_mem_map]
    exact forall₂_congr fun g hg => Shift.exists_partition_reverse (hsorted g hg)
  refine ⟨_, _, ordering, groups, Expr.eval_shift hx hw,
    Expr.eval_shift hx (Window.resolve?_flip hgiven hw), hkeys, hpartitioned, ?_, ?_⟩
  · refine Outcome.error_iff (fun e e' he he' => ?_) (Shift.outcome_collect_run hd hgroups)
      (Shift.outcome_collect_run hd hgroups') hdrains
    exact Except.error.inj (he.symm.trans he')
  · intro made hmade
    obtain ⟨made', hmade'⟩ := hdrains.1 ⟨made, hmade⟩
    have hlag := hmade
    have hlead := hmade'
    rw [Shift.collect_run hgroups] at hlag
    rw [Shift.collect_run hgroups'] at hlead
    obtain ⟨parts, hparts, rfl⟩ := Window.perPartition_eq_ok.1 hlag
    obtain ⟨parts', hparts', rfl⟩ := Window.perPartition_eq_ok.1 hlead
    have hparts' := List.forall₂_map_left_iff.1 hparts'
    refine ⟨_, parts, parts', hmade', rfl, rfl, ?_, ?_, ?_⟩
    · exact (forall₂_mem hparts).imp fun g part h => Shift.partition_eq_ok (hsorted g h.2.1) h.1
    · refine (forall₂_mem hparts').imp fun g part h => Shift.partition_eq_ok (fun r hr => ?_) h.1
      exact hsorted g h.2.1 r (List.mem_reverse.1 hr)
    · refine (forall₂_comp hparts.flip hparts').imp fun part part' h => ?_
      obtain ⟨g, hpart, hpart'⟩ := h
      exact Shift.partition_reverse hpart hpart'

/-- The measures of the previous row in ascending order of key, and a seven for the first one. -/
def lagByKey : Expr := .shift .lag (.var "ds") 1 (some (.integer 7)) ⟨[], [⟨"k", .asc⟩]⟩

/-- The rows that this gives. -/
def laggedByKey : List Row :=
  [⟨keyed, [.string "a", .integer 7], .node lagByKey.text [.known "ds"]⟩,
    ⟨keyed, [.string "b", .integer 1], .node lagByKey.text [.known "ds"]⟩]

theorem lag_mirrors_lead_byKey :
    Window.TieFree ⟨[], [(0, .asc)]⟩ keyedDataSet ∧ lagByKey.DrainsTo keyedScope laggedByKey ∧
      ∃ made parts parts', leadOfKeyed.DrainsTo keyedScope made ∧
        laggedByKey = List.flatten parts ∧ made = List.flatten parts' ∧
        List.Forall₂ (fun part part' => List.Forall₂ Row.SameValues part (List.reverse part')) parts
          parts' := by
  have hx : (Expr.var "ds").eval keyedScope = .ok (.dataset keyedDataSet) := rfl
  have hd : keyedDataSet.WellFormed := DataSet.wellFormed_named named_keyedDataSet
  have hw : Window.resolve? keyed ⟨[], [⟨"k", .asc⟩]⟩ .identifiers = .ok ⟨[], [(0, .asc)]⟩ := rfl
  have hpartitions : Window.partitions ⟨[], [(0, .asc)]⟩ keyedDataSet = .ok
      [⟨[], [⟨keyed, [.string "a", .integer 1], .known "ds"⟩,
        ⟨keyed, [.string "b", .null .integer], .known "ds"⟩]⟩] := by
    rw [Window.partitions_whole rfl (List.cons_ne_nil _ _), Window.sortRows_of_pairwise (by decide)]
  have hties : Window.TieFree ⟨[], [(0, .asc)]⟩ keyedDataSet := by
    intro groups hgroups
    cases hpartitions.symm.trans hgroups
    decide
  have hlagged : (Shift.lag.run 1 (some (.integer 7)) ⟨[], [(0, .asc)]⟩ lagByKey.text
      keyedDataSet).collect = .ok laggedByKey :=
    (Shift.collect_run hpartitions).trans rfl
  obtain ⟨lag, lead, -, groups, hlag, hlead, -, -, -, hmade⟩ :=
    @lag_mirrors_lead _ 1 (some (.integer 7)) _ _ _ _ _ hx hd rfl (List.cons_ne_nil _ []) hw hties
  cases hlag.symm.trans (Expr.eval_shift hx hw)
  obtain ⟨made, parts, parts', hcollect, hflatten, hflatten', -, -, hmirror⟩ := hmade _ hlagged
  exact ⟨hties, ⟨_, hlag, hlagged⟩, made, parts, parts', ⟨_, hlead, hcollect⟩, hflatten, hflatten',
    hmirror⟩

end DataCube
