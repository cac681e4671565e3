import DataCube.Evaluation
import DataCube.Proofs.Interchange.Reductions
import DataCube.Proofs.Interchange.Rows

/-!
# Groups and windows that nothing tells apart

Keys that are alike are equal under the value order, so rows that are alike fall into groups that
are alike, and are sorted alike.  The groups and partitions of like datasets are therefore like each
other place by place, and so is all that is made of them.

* `forall₂_mergeSort`: sorting corresponding lists by orders that agree.
* `Group.Alike`, `DataSet.Alike.agree_groupBy`: the groups of datasets that are alike.
* `DataSet.Alike.shift`, `DataSet.Alike.runWindow`: the two windowed operators.
* `DataSet.Alike.runGroups`: aggregates.
-/

namespace DataCube

variable {signs : Prop}

/-! ## Corresponding lists -/

/-- Sorting corresponding lists by orders that agree keeps them corresponding. -/
theorem forall₂_mergeSort {α β : Type} {P : α → β → Prop} {xs : List α} {ys : List β}
    {le : α → α → Bool} {le' : β → β → Bool} (h : List.Forall₂ P xs ys)
    (hle : ∀ a a' b b', P a b → P a' b' → le a a' = le' b b') :
    List.Forall₂ P (xs.mergeSort le) (ys.mergeSort le') := by
  -- Both lists are the sides of one list of pairs, and sorting the pairs sorts both sides.
  obtain ⟨hlength, hpairs⟩ := List.forall₂_iff_zip.1 h
  let sorted := (xs.zip ys).mergeSort fun p q => le p.1 q.1
  have hmem : ∀ p ∈ xs.zip ys, P p.1 p.2 := fun p hp => hpairs hp
  have hleft : sorted.map Prod.fst = xs.mergeSort le := by
    rw [List.map_mergeSort (s := le) fun _ _ _ _ => rfl, List.map_fst_zip hlength.le]
  have hright : sorted.map Prod.snd = ys.mergeSort le' := by
    rw [List.map_mergeSort (s := le') fun p hp q hq => hle _ _ _ _ (hmem p hp) (hmem q hq),
      List.map_snd_zip hlength.ge]
  rw [← hleft, ← hright, List.forall₂_map_left_iff, List.forall₂_map_right_iff, List.forall₂_same]
  exact fun p hp => hmem p (List.mem_mergeSort.1 hp)

theorem forall₂_zipIdx {α β : Type} {P : α → β → Prop} {xs : List α} {ys : List β}
    (h : List.Forall₂ P xs ys) (n : Nat) :
    List.Forall₂ (fun e e' => P e.1 e'.1 ∧ e.2 = e'.2) (xs.zipIdx n) (ys.zipIdx n) := by
  induction h generalizing n with
  | nil => exact .nil
  | cons hab _ ih => exact .cons ⟨hab, rfl⟩ (ih (n + 1))

theorem forall₂_map_same {α β γ : Type} {P : β → γ → Prop} {f : α → β} {g : α → γ} (xs : List α)
    (h : ∀ x, P (f x) (g x)) : List.Forall₂ P (xs.map f) (xs.map g) := by
  rw [List.forall₂_map_left_iff, List.forall₂_map_right_iff, List.forall₂_same]
  exact fun x _ => h x

theorem foldl_rel {α β γ δ : Type} {P : α → β → Prop} {R : γ → δ → Prop} {f : γ → α → γ}
    {g : δ → β → δ} {xs : List α} {ys : List β} (h : List.Forall₂ P xs ys) {c : γ} {d : δ}
    (hcd : R c d) (hstep : ∀ c d a b, R c d → P a b → R (f c a) (g d b)) :
    R (xs.foldl f c) (ys.foldl g d) := by
  induction h generalizing c d with
  | nil => exact hcd
  | cons hab _ ih => exact ih (hstep _ _ _ _ hcd hab)

/-! ## Groups -/

/-- Keys that are alike. -/
abbrev KeysAlike (signs : Prop) : List Scalar → List Scalar → Prop :=
  List.Forall₂ (Scalar.Alike signs)

theorem Scalar.orderLists_congr {as as' bs bs' : List Scalar} (ha : KeysAlike signs as as')
    (hb : KeysAlike signs bs bs') : orderLists as bs = orderLists as' bs' := by
  induction ha generalizing bs bs' with
  | nil => cases hb <;> rfl
  | cons hv _ ih =>
    cases hb with
    | nil => rfl
    | cons hw hrest => rw [orderLists, orderLists, hv.order_congr hw, ih hrest]

/-- The groups have keys that are alike, and rows that are. -/
structure Group.Alike (signs : Prop) (g g' : Group) : Prop where
  key : KeysAlike signs g.key g'.key
  rows : List.Forall₂ (Row.Alike signs) g.rows g'.rows

/-- Rows in one place of the input that are alike. -/
def NumberedAlike (signs : Prop) (x x' : Nat × Row) : Prop := x.1 = x'.1 ∧ x.2.Alike signs x'.2

/-- An entry of one partition map and an entry of another that are alike. -/
def PartitionAlike (signs : Prop) (e e' : List Scalar × List (Nat × Row)) : Prop :=
  KeysAlike signs e.1 e'.1 ∧ List.Forall₂ (NumberedAlike signs) e.2 e'.2

namespace PartitionMap

variable {map map' : PartitionMap}

theorem alike_append {key key' : List Scalar} {rows rows' : List (Nat × Row)}
    (h : List.Forall₂ (PartitionAlike signs) map map') (hkey : KeysAlike signs key key')
    (hrows : List.Forall₂ (NumberedAlike signs) rows rows') :
    List.Forall₂ (PartitionAlike signs) (append key rows map) (append key' rows' map') := by
  induction h with
  | nil => exact .cons ⟨hkey, hrows⟩ .nil
  | @cons e e' _ _ he hrest ih =>
    rw [append, append, Scalar.orderLists_congr he.1 hkey]
    split
    · exact .cons ⟨he.1, List.rel_append he.2 hrows⟩ hrest
    · exact .cons he ih

theorem alike_ofRows (positions : List Nat) {rows rows' : List (Nat × Row)}
    (h : List.Forall₂ (NumberedAlike signs) rows rows') :
    List.Forall₂ (PartitionAlike signs) (ofRows positions rows) (ofRows positions rows') :=
  foldl_rel h .nil fun _ _ _ _ hmap hx =>
    alike_append hmap (hx.2.key positions) (.cons hx .nil)

theorem alike_groups (h : List.Forall₂ (PartitionAlike signs) map map') :
    List.Forall₂ (Group.Alike signs) map.groups map'.groups := by
  unfold groups
  refine forall₂_mergeSort ?_ fun g g' k k' hg hg' => ?_
  · refine List.rel_map (fun e e' he => ?_) h
    have hsorted : List.Forall₂ (NumberedAlike signs) (e.2.mergeSort fun x y => x.1 ≤ y.1)
        (e'.2.mergeSort fun x y => x.1 ≤ y.1) :=
      forall₂_mergeSort he.2 fun x x' y y' hx hx' => by rw [hx.1, hx'.1]
    exact ⟨he.1, List.rel_map (fun _ _ hx => hx.2) hsorted⟩
  · rw [Scalar.orderLists_congr hg.key hg'.key]

end PartitionMap

variable {d d' : DataSet}

theorem DataSet.Alike.agree_groupBy (h : d.Alike signs d') (keys : List Component) :
    Agree (List.Forall₂ (Group.Alike signs)) (d.groupBy keys) (d'.groupBy keys) := by
  unfold DataSet.groupBy DataSet.keyPositions
  rw [h.schema]
  refine Agree.bind_same _ fun positions _ => h.stream.agree_collect.bind fun rows rows' hrows => ?_
  refine .ok (PartitionMap.alike_groups (PartitionMap.alike_ofRows positions ?_))
  exact List.rel_map (fun _ _ he => ⟨he.2, he.1⟩) (forall₂_zipIdx hrows 0)

/-! ## Windows -/

namespace Window

theorem orderBy_congr {a a' b b' : Row} (ha : a.Alike signs a') (hb : b.Alike signs b')
    (ordering : List (Nat × SortDirection)) : orderBy a b ordering = orderBy a' b' ordering := by
  induction ordering with
  | nil => rfl
  | cons e rest ih =>
    obtain ⟨i, direction⟩ := e
    rw [orderBy, orderBy, (ha.valueAt i).order_congr (hb.valueAt i), ih]

theorem alike_sortRows (w : Window) {rows rows' : List Row}
    (h : List.Forall₂ (Row.Alike signs) rows rows') :
    List.Forall₂ (Row.Alike signs) (w.sortRows rows) (w.sortRows rows') := by
  unfold sortRows
  split
  · refine forall₂_mergeSort h fun a a' b b' hab hab' => ?_
    rw [order, order, orderBy_congr hab hab' w.ordering]
  · exact h

theorem agree_partitions (w : Window) (h : d.Alike signs d') :
    Agree (List.Forall₂ (Group.Alike signs)) (w.partitions d) (w.partitions d') := by
  refine (h.agree_groupBy w.partition).bind fun groups groups' hgroups => .ok ?_
  exact List.rel_map (fun _ _ hg => ⟨hg.key, w.alike_sortRows hg.rows⟩) hgroups

theorem agree_perPartition {groups groups' : List Group}
    {f g : List Row → Except EvalError (List Row)}
    (h : List.Forall₂ (Group.Alike signs) groups groups')
    (hfg : ∀ rows rows', List.Forall₂ (Row.Alike signs) rows rows' →
      Agree (List.Forall₂ (Row.Alike signs)) (f rows) (g rows')) :
    Agree (List.Forall₂ (Row.Alike signs)) (perPartition groups f) (perPartition groups' g) :=
  (Agree.mapM h fun _ _ hg => hfg _ _ hg.rows).map fun _ _ hparts => List.rel_flatten hparts

theorem alike_ownValues {r r' : Row} (h : r.Alike signs r') :
    (ownValues r).Alike signs (ownValues r') :=
  (Draft.Alike.empty.setAll (h.entriesWith .identifier)).setAll (h.entriesWith .attribute)

end Window

/-! ## Shifts -/

namespace Shift

variable {default default' : Option Scalar} {rows rows' : List Row}

theorem agree_fill (h : Option.Rel (Scalar.Alike signs) default default') (schema : Schema) :
    Agree (List.Forall₂ (EntryAlike signs)) (fill schema default) (fill schema default') := by
  have hmeasures : List.Forall₂ Eq schema.measures schema.measures := List.forall₂_eq_eq_eq ▸ rfl
  refine Agree.mapM hmeasures fun m m' hm => ?_
  subst hm
  cases h with
  | none => exact .ok (EntryAlike.refl _)
  | some hv => exact (hv.agree_cast m.domain).map fun _ _ hcast => ⟨rfl, hcast⟩

theorem agree_measuresAt (direction : Shift) (offset : Nat)
    (h : Option.Rel (Scalar.Alike signs) default default') (schema : Schema)
    (hrows : List.Forall₂ (Row.Alike signs) rows rows') (i : Nat) :
    Agree (List.Forall₂ (EntryAlike signs)) (direction.measuresAt offset default schema rows i)
      (direction.measuresAt offset default' schema rows' i) := by
  unfold measuresAt
  have hsource : Option.Rel (Row.Alike signs) ((direction.source? offset i).bind fun j => rows[j]?)
      ((direction.source? offset i).bind fun j => rows'[j]?) := by
    cases direction.source? offset i with
    | none => exact .none
    | some j => exact forall₂_getElem? hrows j
  generalize (direction.source? offset i).bind (fun j => rows[j]?) = x,
    (direction.source? offset i).bind (fun j => rows'[j]?) = y at hsource ⊢
  cases hsource with
  | none => exact agree_fill h schema
  | some hr => exact .ok (hr.entriesWith .measure)

theorem agree_row (direction : Shift) (offset : Nat)
    (h : Option.Rel (Scalar.Alike signs) default default') (schema : Schema) (label : String)
    (hrows : List.Forall₂ (Row.Alike signs) rows rows') {r r' : Row} (hr : r.Alike signs r')
    (i : Nat) :
    Agree (Row.Alike signs) (direction.row offset default schema label rows r i)
      (direction.row offset default' schema label rows' r' i) :=
  (agree_measuresAt direction offset h schema hrows i).bind fun _ _ hmeasures =>
    ((Window.alike_ownValues hr).setAll hmeasures).agree_build schema (hr.derivedLineage label)

theorem agree_partition (direction : Shift) (offset : Nat)
    (h : Option.Rel (Scalar.Alike signs) default default') (schema : Schema) (label : String)
    (hrows : List.Forall₂ (Row.Alike signs) rows rows') :
    Agree (List.Forall₂ (Row.Alike signs)) (direction.partition offset default schema label rows)
      (direction.partition offset default' schema label rows') := by
  refine Agree.mapM (forall₂_zipIdx hrows 0) fun e e' he => ?_
  rw [he.2]
  exact agree_row direction offset h schema label hrows he.1 e'.2

end Shift

theorem DataSet.Alike.shift (h : d.Alike signs d') (direction : Shift) (offset : Nat)
    {default default' : Option Scalar} (hdefault : Option.Rel (Scalar.Alike signs) default default')
    (w : Window) (label : String) :
    (direction.run offset default w label d).Alike signs
      (direction.run offset default' w label d') := by
  unfold Shift.run
  rw [h.schema]
  refine DataSet.Alike.derived rfl ((w.agree_partitions h).bind fun groups groups' hgroups => ?_)
  exact Window.agree_perPartition hgroups fun rows rows' hrows =>
    Shift.agree_partition direction offset hdefault d'.schema label hrows

/-! ## Reductions -/

namespace Reducer

variable {rows rows' : List Row}

theorem rel_extract (r : Reducer) (measure : Component) {row row' : Row}
    (h : row.Alike signs row') :
    Option.Rel (Scalar.Alike signs) (r.extract measure row) (r.extract measure row') := by
  unfold extract
  split
  · exact .none
  · exact .some (rel_getD (h.get? measure.name) (.refl _))

theorem alike_runRows {r : Reducer} (hr : r.Respects signs) (measure : Component)
    (hrows : List.Forall₂ (Row.Alike signs) rows rows') :
    (r.runRows measure rows).Alike signs (r.runRows measure rows') :=
  foldl_rel hrows (alike_accumulator hr) fun _ _ _ _ ha hrow =>
    ha.accumulate (r.rel_extract measure hrow)

theorem alike_running (r : Reducer) (measure : Component) {a a' : Accumulator}
    (ha : a.Alike signs a') (hrows : List.Forall₂ (Row.Alike signs) rows rows') :
    List.Forall₂ (Scalar.Alike signs) (r.running measure a rows) (r.running measure a' rows') := by
  induction hrows generalizing a a' with
  | nil => exact .nil
  | cons hrow _ ih =>
    have hnext := ha.accumulate (r.rel_extract measure hrow)
    exact .cons (alike_finishWith hnext _) (ih hnext)

theorem alike_column {r : Reducer} (hr : r.Respects signs) (isRunning : Bool)
    (measure : Component) (hrows : List.Forall₂ (Row.Alike signs) rows rows') :
    List.Forall₂ (Scalar.Alike signs) (r.column isRunning rows measure)
      (r.column isRunning rows' measure) := by
  unfold column
  split
  · exact r.alike_running measure (alike_accumulator hr) hrows
  · rw [← List.map_const', ← List.map_const']
    exact List.rel_map (fun _ _ _ => alike_finishWith (alike_runRows hr measure hrows) _) hrows

theorem agree_fit {v w : Scalar} (h : v.Alike signs w) (domain : Domain) :
    Agree (Scalar.Alike signs) (fit v domain) (fit w domain) := by
  cases h with
  | refl => exact Agree.refl .refl _
  | number hx =>
    simp only [fit, hx.isNaN_eq]
    split
    · exact .ok (.refl _)
    · exact (Scalar.Alike.number hx).agree_cast domain

/-- Columns of one measure with results that are alike. -/
def ColumnAlike (signs : Prop) (e e' : Component × List Scalar) : Prop :=
  e.1 = e'.1 ∧ List.Forall₂ (Scalar.Alike signs) e.2 e'.2

theorem agree_row (target : Schema) (label : String)
    {columns columns' : List (Component × List Scalar)}
    (h : List.Forall₂ (ColumnAlike signs) columns columns') {own own' : Row}
    (hown : own.Alike signs own') (i : Nat) :
    Agree (Row.Alike signs) (row target label columns own i)
      (row target label columns' own' i) := by
  suffices hmeasures : Agree (List.Forall₂ (EntryAlike signs)) _ _ from
    hmeasures.bind fun _ _ hmeasures =>
      ((Window.alike_ownValues hown).setAll hmeasures).agree_build target
        (hown.derivedLineage label)
  refine Agree.mapM h fun e e' he => ?_
  obtain ⟨hmeasure, hresults⟩ := he
  have hresult : Scalar.Alike signs (e.2.getD i (.null .null)) (e'.2.getD i (.null .null)) := by
    rw [List.getD_eq_getElem?_getD, List.getD_eq_getElem?_getD]
    exact rel_getD (forall₂_getElem? hresults i) (.refl _)
  rw [hmeasure]
  refine Agree.bind_same _ fun component _ => (agree_fit hresult component.domain).bind ?_
  exact fun _ _ hv => .ok ⟨rfl, hv⟩

theorem agree_partition {r : Reducer} (hr : r.Respects signs) (isRunning : Bool)
    (measures : List Component) (target : Schema) (label : String)
    (hrows : List.Forall₂ (Row.Alike signs) rows rows') :
    Agree (List.Forall₂ (Row.Alike signs)) (r.partition isRunning measures target label rows)
      (r.partition isRunning measures target label rows') := by
  have hcolumns : List.Forall₂ (ColumnAlike signs)
      (measures.map fun m => (m, r.column isRunning rows m))
      (measures.map fun m => (m, r.column isRunning rows' m)) :=
    forall₂_map_same measures fun m => ⟨rfl, alike_column hr isRunning m hrows⟩
  refine Agree.mapM (forall₂_zipIdx hrows 0) fun e e' he => ?_
  rw [he.2]
  exact agree_row target label hcolumns he.1 e'.2

end Reducer

theorem DataSet.Alike.runWindow (h : d.Alike signs d') {r : Reducer}
    (hr : r.Respects signs) (w : Window) (target : Schema) (label : String) :
    (r.runWindow w target label d).Alike signs (r.runWindow w target label d') := by
  unfold Reducer.runWindow
  rw [h.schema]
  refine DataSet.Alike.derived rfl ((w.agree_partitions h).bind fun groups groups' hgroups => ?_)
  exact Window.agree_perPartition hgroups fun rows rows' hrows =>
    Reducer.agree_partition hr w.isOrdered d'.schema.measures target label hrows

namespace Statistic

variable {s : Statistic}

theorem agree_groups (keys : List Component) (h : d.Alike signs d') :
    Agree (List.Forall₂ (Group.Alike signs)) (groups keys d) (groups keys d') := by
  unfold groups
  split
  · exact h.stream.agree_collect.bind fun rows rows' hrows => .ok (.cons ⟨.nil, hrows⟩ .nil)
  · exact h.agree_groupBy keys

theorem agree_groupRow (hs : (Reducer.statistic s).Respects signs) (keys measures : List Component)
    (target : Schema) {g g' : Group} (h : g.Alike signs g') :
    Agree (Row.Alike signs) (s.groupRow keys measures target g)
      (s.groupRow keys measures target g') := by
  have hreduced : List.Forall₂ (EntryAlike signs) (measures.map fun m => (m, s.reduceRows m g.rows))
      (measures.map fun m => (m, s.reduceRows m g'.rows)) :=
    forall₂_map_same measures fun m =>
      ⟨rfl, Reducer.alike_finishWith (Reducer.alike_runRows hs m h.rows) _⟩
  have hlineages : g.rows.map Row.lineage = g'.rows.map Row.lineage :=
    map_eq_map_of_forall₂ h.rows fun _ _ hr => hr.lineage
  refine ((Draft.Alike.empty.setAll (forall₂_zip keys h.key)).setAll hreduced).agree_build target ?_
  rw [contributions, contributions, hlineages]

end Statistic

theorem DataSet.Alike.runGroups (h : d.Alike signs d') {s : Statistic}
    (hs : (Reducer.statistic s).Respects signs) (keys : List Component) (target : Schema) :
    (s.runGroups keys target d).Alike signs (s.runGroups keys target d') := by
  unfold Statistic.runGroups
  rw [h.schema]
  refine DataSet.Alike.derived rfl ((Statistic.agree_groups keys h).bind fun _ _ hgroups => ?_)
  exact Agree.mapM hgroups fun _ _ hg => Statistic.agree_groupRow hs keys _ target hg

end DataCube
