import DataCube.Proofs.Aggregates
import DataCube.Proofs.Arrivals
import DataCube.Proofs.OrderBlind

/-!
# Extremes roll up

The least and the greatest values of a measure can be taken in two steps, by some keys first and by
fewer of them then.  Every row has a total for its finer key, and the total of a measure is one of
the values of its rows that are not null, which no other one of them is better than.  So the totals
with a coarse key cover the rows with this key, and the best of the ones is the best of the others.
A total that is null says that its rows have nothing but nulls, and is left out like these.

* `Statistic.ExtremeOf`: the row of a group under an extreme.
* `Statistic.Extremes`: the rows that an extreme makes of rows.  `Statistic.exists_extremes` says
  that it always makes them, and `Extremes.exists_total` and `Extremes.exists_source` how they and
  the rows stand to each other.
* `Statistic.GroupsOf.partners`: the groups of two lists of rows that have the same keys.
* `Statistic.Extremes.best`: the best of totals is the best of the rows.
* `extremes_roll_up`: the result.
-/

namespace DataCube

open Scalar (nonNull Best orderLists orderLists_refl orderLists_symm orderLists_trans)

/-! ## Nulls -/

theorem Scalar.mem_nonNull {v : Scalar} {xs : List Scalar} :
    v ∈ nonNull xs ↔ v ∈ xs ∧ v.isNull = false := by
  simp [nonNull]

/-- Every column takes the null of no domain, and keeps a null. -/
theorem Component.exists_store_null (c : Component) :
    ∃ v, c.store (.null .null) = .ok v ∧ v.isNull = true := by
  obtain ⟨name, role, domain⟩ := c
  cases domain <;> exact ⟨_, rfl, rfl⟩

/-! ## Columns -/

/-- Measures that keep their domains leave a schema as it is. -/
theorem Schema.mapMeasures_self (s : Schema) : s.mapMeasures (fun m => .ok m.domain) = .ok s := by
  obtain ⟨s', hs'⟩ : ∃ s', s.mapMeasures (fun m => .ok m.domain) = .ok s' :=
    exists_mapMeasures.2 fun m _ => ⟨m.domain, rfl⟩
  have hsame : List.Forall₂ Eq s.components s'.components := by
    refine (mapMeasures_eq_ok hs').imp fun c c' hc => ?_
    by_cases hrole : c.role = .measure
    · obtain ⟨name, role, domain⟩ := c
      obtain ⟨name', role', domain'⟩ := c'
      cases hc.name
      cases hc.role
      cases hc.measure hrole
      rfl
    · exact (hc.other hrole).symm
  have heq : s.components = s'.components := by rwa [List.forall₂_eq_eq_eq] at hsame
  rw [hs', eq_of_components heq]

namespace Statistic

variable {s : Statistic} {wanted : Ordering} {schema : Schema} {keys fine coarse : List Component}
  {g : Group} {t : Row} {rows rows' totals once twice : List Row} {groups groups' : List Group}
  {m : Component}

/-- An extreme of a measure has the domain of the measure. -/
theorem mapMeasures_extreme (hs : s.Prefers wanted) (schema : Schema) :
    schema.mapMeasures (fun m => s.outputDomain? m.domain) = .ok schema := by
  cases hs <;> exact schema.mapMeasures_self

/-- The columns for fewer keys are among the columns for more. -/
theorem columns_columns (schema : Schema) (h : coarse ⊆ fine) :
    columns (columns schema fine) coarse = columns schema coarse := by
  refine Schema.eq_of_components ?_
  show List.filter _ (List.filter _ schema.components) = List.filter _ schema.components
  rw [List.filter_filter]
  refine List.filter_congr fun c _ => ?_
  by_cases hc : c ∈ coarse
  · simp [hc, h hc]
  · cases decide (c.role = .measure) <;> simp [hc]

/-! ## Rows of extremes -/

/-- The row of a group has its key, and for every measure the best value that is not null, or the
null of the column if there is none. -/
structure ExtremeOf (wanted : Ordering) (keys : List Component) (source : Schema) (g : Group)
    (t : Row) : Prop where
  schema : t.schema = columns source keys
  fits : t.WellFormed
  key : keys.map t.valueOf = g.key
  measure : ∀ m ∈ source.measures, ∃ best empty,
    Best wanted (nonNull (g.rows.map (·.valueOf m))) best ∧
      m.store (.null .null) = .ok empty ∧ t.valueOf m = best.getD empty

/-- An extreme is the best of the values that are not null, which goes into the column as it is. -/
theorem exists_store_extreme (hs : s.Prefers wanted)
    (hrows : ∀ r ∈ rows, m.domain.Describes (r.valueOf m).domain) :
    ∃ best empty, Best wanted (nonNull (rows.map (·.valueOf m))) best ∧
      m.store (.null .null) = .ok empty ∧
      m.store (s.reduceRows m rows) = .ok (best.getD empty) := by
  obtain ⟨best, hbest, hvalue⟩ := Reducer.exists_extreme hs (rows.map (·.valueOf m))
  obtain ⟨empty, hempty, -⟩ := m.exists_store_null
  refine ⟨best, empty, hbest, hempty, ?_⟩
  rw [reduceRows, finish, Reducer.runRows_eq_run, hvalue]
  cases best with
  | none => exact hempty
  | some v =>
    obtain ⟨r, hr, rfl⟩ := List.mem_map.1 (Scalar.mem_nonNull.1 hbest.1).1
    exact Component.store_of_describes (hrows r hr)

/-- Every group has its row. -/
theorem exists_extremeOf (hs : s.Prefers wanted) (hkeys : ∀ k ∈ keys, k ∈ schema.identifiers)
    (hg : g.KeyedBy keys) (hrows : ∀ r ∈ g.rows, r.schema = schema ∧ r.WellFormed) :
    ∃ t, s.groupRow keys schema.measures (columns schema keys) g = .ok t ∧
      ExtremeOf wanted keys schema g t := by
  have hcolumns := mapMeasures_extreme hs (columns schema keys)
  have hdescribes (m : Component) (hm : m ∈ schema.measures) :
      ∀ r ∈ g.rows, m.domain.Describes (r.valueOf m).domain := by
    intro r hr
    obtain ⟨hschema, hfits⟩ := hrows r hr
    exact hfits.describes_valueOf (hschema ▸ (Schema.mem_measures.1 hm).1)
  -- a column that is named like a measure is the measure
  have hcolumn (m : Component) (hm : m ∈ schema.measures) (c : Component)
      (hc : c ∈ (columns schema keys).components) (hname : c.name = m.name) : c = m :=
    Schema.eq_of_name (mem_columns.1 hc).1 (Schema.mem_measures.1 hm).1 hname
  obtain ⟨t, ht⟩ : ∃ t, s.groupRow keys schema.measures (columns schema keys) g = .ok t := by
    refine exists_groupRow hkeys hcolumns hg fun m hm c hc hname _ => ?_
    obtain ⟨best, empty, -, -, hstore⟩ := exists_store_extreme hs (hdescribes m hm)
    rw [hcolumn m hm c hc hname]
    exact ⟨_, hstore⟩
  have hrow := rowOf_groupRow hkeys hcolumns hg ht
  refine ⟨t, ht, hrow.schema, (Draft.wellFormed_build ht).2, hrow.key, fun m hm => ?_⟩
  obtain ⟨best, empty, hbest, hempty, hstore⟩ := exists_store_extreme hs (hdescribes m hm)
  obtain ⟨c, hc, hname, -, v, hv, hget⟩ := hrow.measure m hm
  rw [hcolumn m hm c hc hname] at hv
  cases hstore.symm.trans hv
  refine ⟨best, empty, hbest, hempty, ?_⟩
  rw [Row.valueOf, hget, Option.getD_some]

/-- The rows that an extreme makes of rows: one for every group of them. -/
def Extremes (wanted : Ordering) (keys : List Component) (schema : Schema)
    (rows totals : List Row) : Prop :=
  ∃ groups, GroupsOf keys rows groups ∧
    List.Forall₂ (ExtremeOf wanted keys schema) groups totals

/-- An extreme of what drains drains. -/
theorem exists_extremes (hs : s.Prefers wanted) {x : Expr} {scope : Scope} {d : DataSet}
    {names : List String} (hd : d.WellFormed) (hx : x.eval scope = .ok (.dataset d))
    (hrows : d.collect = .ok rows) (hkeys : groupKeys? d.schema names = .ok keys) :
    ∃ made totals, (Expr.aggregate s x names).eval scope = .ok (.dataset made) ∧
      made.schema = columns d.schema keys ∧ made.WellFormed ∧ made.collect = .ok totals ∧
      Extremes wanted keys d.schema rows totals := by
  have hcolumns := mapMeasures_extreme hs (columns d.schema keys)
  obtain ⟨groups, hgroups, hcut⟩ := exists_groups hd hkeys hrows
  obtain ⟨totals, htotals⟩ : ∃ totals, List.Forall₂ (fun g t =>
      s.groupRow keys d.schema.measures (columns d.schema keys) g = .ok t ∧
        ExtremeOf wanted keys d.schema g t) groups totals := by
    refine exists_forall₂ fun g hg => ?_
    refine exists_extremeOf hs (fun _ => mem_identifiers_of_groupKeys? hkeys)
      (hcut.keyedBy g hg) fun r hr => ?_
    rw [hcut.rows_eq g hg] at hr
    exact hd.of_mem hrows (List.mem_of_mem_filter hr)
  refine ⟨_, totals, eval_aggregate hx hkeys hcolumns, rfl, s.wellFormed_runGroups _ _ _, ?_,
    groups, hcut, htotals.imp fun _ _ ht => ht.2⟩
  rw [collect_runGroups]
  exact bind_eq_ok.2 ⟨groups, hgroups, mapM_eq_ok.2 (htotals.imp fun _ _ ht => ht.1)⟩

/-! ## Rows and their totals -/

namespace Extremes

variable {r : Row}

/-- Every row has a total of its key.  Where the row is not null the total is not, and the row is
not better. -/
theorem exists_total (h : Extremes wanted keys schema rows totals) (hr : r ∈ rows) :
    ∃ t ∈ totals, orderLists (keys.map r.valueOf) (keys.map t.valueOf) = .eq ∧
      ∀ m ∈ schema.measures, (r.valueOf m).isNull = false →
        (t.valueOf m).isNull = false ∧ (r.valueOf m).order (t.valueOf m) ≠ wanted := by
  obtain ⟨groups, hcut, htotals⟩ := h
  obtain ⟨g, hg, hkey⟩ := hcut.covers r hr
  obtain ⟨t, ht, hrow⟩ := exists_of_forall₂ htotals hg
  refine ⟨t, ht, by rwa [hrow.key], fun m hm hvalue => ?_⟩
  obtain ⟨best, empty, hbest, -, hvalueOf⟩ := hrow.measure m hm
  have hmember : r.valueOf m ∈ nonNull (g.rows.map (·.valueOf m)) := by
    refine Scalar.mem_nonNull.2 ⟨List.mem_map_of_mem ?_, hvalue⟩
    rw [hcut.rows_eq g hg]
    exact List.mem_filter.2 ⟨hr, decide_eq_true hkey⟩
  cases best with
  | none =>
    rw [show nonNull (g.rows.map (·.valueOf m)) = [] from hbest] at hmember
    nomatch hmember
  | some v =>
    rw [hvalueOf]
    exact ⟨(Scalar.mem_nonNull.1 hbest.1).2, hbest.2 _ hmember⟩

/-- A total that is not null is the value of a row with its key. -/
theorem exists_source (h : Extremes wanted keys schema rows totals) (ht : t ∈ totals)
    (hm : m ∈ schema.measures) (hvalue : (t.valueOf m).isNull = false) :
    ∃ r ∈ rows, orderLists (keys.map r.valueOf) (keys.map t.valueOf) = .eq ∧
      r.valueOf m = t.valueOf m := by
  obtain ⟨groups, hcut, htotals⟩ := h
  obtain ⟨g, hg, hrow⟩ := exists_of_forall₂ htotals.flip ht
  obtain ⟨best, empty, hbest, hempty, hvalueOf⟩ := hrow.measure m hm
  cases best with
  | none =>
    obtain ⟨empty', hempty', hnull⟩ := m.exists_store_null
    cases hempty.symm.trans hempty'
    rw [hvalueOf, Option.getD_none, hnull] at hvalue
    nomatch hvalue
  | some v =>
    obtain ⟨r, hr, hrv⟩ := List.mem_map.1 (Scalar.mem_nonNull.1 hbest.1).1
    rw [hcut.rows_eq g hg] at hr
    obtain ⟨hr, hkey⟩ := List.mem_filter.1 hr
    rw [hrow.key, hvalueOf]
    exact ⟨r, hr, of_decide_eq_true hkey, hrv⟩

/-- With keys, every total has the key of a row. -/
theorem exists_first (h : Extremes wanted keys schema rows totals) (hkeys : keys ≠ [])
    (ht : t ∈ totals) : ∃ r ∈ rows, keys.map t.valueOf = keys.map r.valueOf := by
  obtain ⟨groups, hcut, htotals⟩ := h
  obtain ⟨g, hg, hrow⟩ := exists_of_forall₂ htotals.flip ht
  rw [hrow.key]
  exact hcut.inhabited hkeys g hg

end Extremes

/-! ## Groups of rows with the same keys -/

namespace GroupsOf

/-- A group has a partner among the groups of other rows, if these have all keys. -/
theorem exists_partner (h : GroupsOf keys rows groups) (h' : GroupsOf keys rows' groups')
    (hrows : keys ≠ [] → ∀ r ∈ rows, ∃ r' ∈ rows',
      orderLists (keys.map r.valueOf) (keys.map r'.valueOf) = .eq) (hg : g ∈ groups) :
    ∃ g' ∈ groups', orderLists g.key g'.key = .eq := by
  by_cases hkeys : keys = []
  · subst hkeys
    obtain ⟨g', hg'⟩ := List.length_eq_one_iff.1 (h'.whole rfl)
    have hmem : g' ∈ groups' := hg' ▸ List.mem_singleton_self g'
    obtain ⟨_, hkey, -⟩ := h.keyedBy g hg
    obtain ⟨_, hkey', -⟩ := h'.keyedBy g' hmem
    exact ⟨g', hmem, by rw [hkey, hkey']; rfl⟩
  · obtain ⟨first, hfirst, hkey⟩ := h.inhabited hkeys g hg
    obtain ⟨r', hr', hsame⟩ := hrows hkeys first hfirst
    obtain ⟨g', hg', hkey'⟩ := h'.covers r' hr'
    rw [hkey]
    exact ⟨g', hg', orderLists_trans hsame hkey'⟩

/-- The groups of rows that have the same keys correspond. -/
theorem partners (h : GroupsOf keys rows groups) (h' : GroupsOf keys rows' groups')
    (hrows : keys ≠ [] → ∀ r ∈ rows, ∃ r' ∈ rows',
      orderLists (keys.map r.valueOf) (keys.map r'.valueOf) = .eq)
    (hrows' : keys ≠ [] → ∀ r' ∈ rows', ∃ r ∈ rows,
      orderLists (keys.map r'.valueOf) (keys.map r.valueOf) = .eq) :
    List.Forall₂ (fun g g' => orderLists g.key g'.key = .eq) groups groups' := by
  refine forall₂_of_ascending h.ascending h'.ascending
    (fun g hg => h.exists_partner h' hrows hg) fun g' hg' => ?_
  obtain ⟨g, hg, hkey⟩ := h'.exists_partner h hrows' hg'
  exact ⟨g, hg, orderLists_symm hkey⟩

end GroupsOf

/-! ## Rolling up -/

/-- Rows that agree in some keys agree in fewer. -/
theorem orderLists_coarser {a b : Row} (hcoarse : coarse ⊆ fine)
    (h : orderLists (fine.map a.valueOf) (fine.map b.valueOf) = .eq) :
    orderLists (coarse.map a.valueOf) (coarse.map b.valueOf) = .eq :=
  Scalar.orderLists_map_eq_iff.2 fun k hk => Scalar.orderLists_map_eq_iff.1 h k (hcoarse hk)

namespace Extremes

/-- The best of the totals with a coarse key is the best of the rows with this key. -/
theorem best (hwanted : wanted ≠ .eq) (h : Extremes wanted fine schema rows totals)
    (hcoarse : coarse ⊆ fine) (hm : m ∈ schema.measures) {key : List Scalar} {best : Option Scalar}
    (hbest : Best wanted (nonNull ((totals.filter fun t =>
      orderLists (coarse.map t.valueOf) key = .eq).map (·.valueOf m))) best) :
    Best wanted (nonNull ((rows.filter fun r =>
      orderLists (coarse.map r.valueOf) key = .eq).map (·.valueOf m))) best := by
  refine hbest.of_cover hwanted (fun y hy => ?_) fun x hx => ?_
  · obtain ⟨hy, hvalue⟩ := Scalar.mem_nonNull.1 hy
    obtain ⟨t, ht, rfl⟩ := List.mem_map.1 hy
    obtain ⟨ht, hkey⟩ := List.mem_filter.1 ht
    obtain ⟨r, hr, hsame, hrt⟩ := h.exists_source ht hm hvalue
    rw [← hrt] at hvalue ⊢
    refine Scalar.mem_nonNull.2 ⟨List.mem_map_of_mem (List.mem_filter.2 ⟨hr, ?_⟩), hvalue⟩
    exact decide_eq_true
      (orderLists_trans (orderLists_coarser hcoarse hsame) (of_decide_eq_true hkey))
  · obtain ⟨hx, hvalue⟩ := Scalar.mem_nonNull.1 hx
    obtain ⟨r, hr, rfl⟩ := List.mem_map.1 hx
    obtain ⟨hr, hkey⟩ := List.mem_filter.1 hr
    obtain ⟨t, ht, hsame, hbetter⟩ := h.exists_total hr
    obtain ⟨hnull, hnot⟩ := hbetter m hm hvalue
    refine ⟨t.valueOf m, ?_, hnot⟩
    refine Scalar.mem_nonNull.2 ⟨List.mem_map_of_mem (List.mem_filter.2 ⟨ht, ?_⟩), hnull⟩
    exact decide_eq_true (orderLists_trans
      (orderLists_symm (orderLists_coarser hcoarse hsame)) (of_decide_eq_true hkey))

/-- Extremes of totals are the extremes of the rows. -/
theorem rollUp (hwanted : wanted ≠ .eq) (h : Extremes wanted fine schema rows totals)
    (hcoarse : coarse ⊆ fine) (honce : Extremes wanted coarse schema rows once)
    (htwice : Extremes wanted coarse (columns schema fine) totals twice) :
    List.Forall₂ (fun t t' => t'.schema = t.schema ∧ orderLists t.values t'.values = .eq)
      once twice := by
  obtain ⟨groups, hcut, honce⟩ := honce
  obtain ⟨groups', hcut', htwice⟩ := htwice
  have hfine (hne : coarse ≠ []) : fine ≠ [] := by
    rintro rfl
    exact hne (List.subset_nil.1 hcoarse)
  have hpartners := hcut.partners hcut'
    (fun _ r hr => by
      obtain ⟨t, ht, hsame, -⟩ := h.exists_total hr
      exact ⟨t, ht, orderLists_coarser hcoarse hsame⟩)
    fun hne t ht => by
      obtain ⟨r, hr, hsame⟩ := h.exists_first (hfine hne) ht
      refine ⟨r, hr, orderLists_coarser hcoarse ?_⟩
      rw [hsame]
      exact orderLists_refl _
  refine (forall₂_comp honce.flip (forall₂_comp (forall₂_mem hpartners) htwice)).imp
    fun t t' ⟨g, ht, g', ⟨hkey, hg, hg'⟩, ht'⟩ => ?_
  have hschema : t'.schema = t.schema := by
    rw [ht'.schema, ht.schema, columns_columns schema hcoarse]
  refine ⟨hschema, ?_⟩
  rw [ht.fits.values_eq, ht'.fits.values_eq, hschema, ht.schema]
  refine Scalar.orderLists_map_eq_iff.2 fun c hc => ?_
  obtain ⟨hmem, hk | hrole⟩ := mem_columns.1 hc
  · rw [← ht.key, ← ht'.key] at hkey
    exact Scalar.orderLists_map_eq_iff.1 hkey c hk
  · have hm : c ∈ schema.measures := Schema.mem_measures.2 ⟨hmem, hrole⟩
    obtain ⟨best, empty, hbest, hempty, hvalue⟩ := ht.measure c hm
    obtain ⟨best', empty', hbest', hempty', hvalue'⟩ :=
      ht'.measure c (measures_columns schema fine ▸ hm)
    cases hempty.symm.trans hempty'
    rw [hcut.rows_eq g hg] at hbest
    rw [hcut'.rows_eq g' hg', ← Scalar.filter_orderLists_congr
      (fun t : Row => coarse.map t.valueOf) totals hkey] at hbest'
    rw [hvalue, hvalue']
    exact rel_getD (hbest.rel hwanted (.refl _) (h.best hwanted hcoarse hm hbest'))
      Std.ReflCmp.compare_self

end Extremes

/-- Components that are identifiers are found under their stored names, if these have no quotes. -/
theorem groupKeys?_names
    (h : ∀ k ∈ keys, k ∈ schema.identifiers ∧ NamePattern.unquote? k.name = none) :
    groupKeys? schema (keys.map Component.name) = .ok keys := by
  refine mapM_eq_ok.2 (List.forall₂_map_left_iff.2 (List.forall₂_same.2 fun k hk => ?_))
  obtain ⟨hmem, hplain⟩ := h k hk
  obtain ⟨hmem, hrole⟩ := Schema.mem_identifiers.1 hmem
  exact Schema.requireIdentifier_eq_ok.2
    ⟨Schema.require_eq_ok.1 (Schema.require_of_unquoted hmem hplain), hrole⟩

end Statistic

/-- The least values of measures over coarse groups are the least values of those over fine groups,
and so are the greatest.  For any dataset that drains, and any identifiers to group by of which some
are left, without any or with repetitions, both ways drain, to rows of one schema in one order, and
to values that compare equal. -/
theorem extremes_roll_up {s : Statistic} (hs : s ∈ [Statistic.least, .greatest]) {x : Expr}
    {scope : Scope} {d : DataSet} {rows : List Row} (hd : d.WellFormed)
    (hx : x.eval scope = .ok (.dataset d)) (hrows : d.collect = .ok rows)
    {fine coarse : List Component}
    (hfine : ∀ k ∈ fine, k ∈ d.schema.identifiers ∧ NamePattern.unquote? k.name = none)
    (hcoarse : coarse ⊆ fine) :
    ∃ once twice totals totals',
      (Expr.aggregate s x (coarse.map Component.name)).eval scope = .ok (.dataset once) ∧
      (Expr.aggregate s (.aggregate s x (fine.map Component.name))
        (coarse.map Component.name)).eval scope = .ok (.dataset twice) ∧
      twice.schema = once.schema ∧ once.collect = .ok totals ∧ twice.collect = .ok totals' ∧
      List.Forall₂ (fun t t' => t'.schema = t.schema ∧
        Scalar.orderLists t.values t'.values = .eq) totals totals' := by
  obtain ⟨wanted, hprefers⟩ := Statistic.exists_prefers hs
  obtain ⟨once, totals, honce, hschema, -, htotals, hextremes⟩ :=
    Statistic.exists_extremes hprefers hd hx hrows
      (Statistic.groupKeys?_names fun k hk => hfine k (hcoarse hk))
  obtain ⟨inner, innerTotals, hinner, hinnerSchema, hinnerFits, hinnerTotals, hinnerExtremes⟩ :=
    Statistic.exists_extremes hprefers hd hx hrows (Statistic.groupKeys?_names hfine)
  have hkept : ∀ k ∈ coarse,
      k ∈ inner.schema.identifiers ∧ NamePattern.unquote? k.name = none := by
    intro k hk
    obtain ⟨hmem, hplain⟩ := hfine k (hcoarse hk)
    obtain ⟨hmem, hrole⟩ := Schema.mem_identifiers.1 hmem
    rw [hinnerSchema]
    exact ⟨Schema.mem_identifiers.2
      ⟨Statistic.mem_columns.2 ⟨hmem, Or.inl (hcoarse hk)⟩, hrole⟩, hplain⟩
  obtain ⟨twice, totals', htwice, hschema', -, htotals', hextremes'⟩ :=
    Statistic.exists_extremes hprefers hinnerFits hinner hinnerTotals
      (Statistic.groupKeys?_names hkept)
  rw [hinnerSchema] at hschema' hextremes'
  refine ⟨once, twice, totals, totals', honce, htwice, ?_, htotals, htotals',
    hinnerExtremes.rollUp hprefers.ne_eq hcoarse hextremes hextremes'⟩
  rw [hschema', hschema, Statistic.columns_columns d.schema hcoarse]

/-- The greatest value for each first identifier. -/
def greatestByKey : Expr := .aggregate .greatest (.var "ds") ["k"]

/-- The same by way of the greatest value for both identifiers. -/
def greatestOfGreatest : Expr :=
  .aggregate .greatest (.aggregate .greatest (.var "ds") ["k", "j"]) ["k"]

/-- A row for a first identifier, with a value of some rows that have it. -/
def greatestRow (k : String) (v : Scalar) (n : Nat) : Row :=
  ⟨keyed, [.string k, v], .group [(.known "ds", n)]⟩

theorem drainsTo_greatestByKey :
    greatestByKey.DrainsTo keyedTwiceScope
      [greatestRow "a" (.integer 7) 2, greatestRow "b" (.null .integer) 1] := by
  have hx : (Expr.var "ds").eval keyedTwiceScope = .ok (.dataset keyedTwiceDataSet) := rfl
  exact (Statistic.drainsTo_aggregate hx).2
    ⟨_, _, _, rfl, rfl, groupBy_keyedTwiceDataSet, .cons rfl (.cons rfl .nil)⟩

/-- One key has two finer keys, and the other one has nothing but a null. -/
theorem extremes_roll_up_greatestOfGreatest :
    Statistic.greatest ∈ [Statistic.least, .greatest] ∧ keyedTwiceDataSet.WellFormed ∧
      (∀ k ∈ keyedTwice.identifiers,
        k ∈ keyedTwice.identifiers ∧ NamePattern.unquote? k.name = none) ∧
      [⟨"k", .identifier, .string⟩] ⊆ keyedTwice.identifiers ∧
      ∃ totals, greatestOfGreatest.DrainsTo keyedTwiceScope totals ∧
        List.Forall₂ (fun t t' => t'.schema = t.schema ∧
          Scalar.orderLists t.values t'.values = .eq)
          [greatestRow "a" (.integer 7) 2, greatestRow "b" (.null .integer) 1] totals := by
  have hs : Statistic.greatest ∈ [Statistic.least, .greatest] := by decide
  have hd : keyedTwiceDataSet.WellFormed := DataSet.wellFormed_named named_keyedTwiceDataSet
  have hx : (Expr.var "ds").eval keyedTwiceScope = .ok (.dataset keyedTwiceDataSet) := rfl
  have hfine : ∀ k ∈ keyedTwice.identifiers,
      k ∈ keyedTwice.identifiers ∧ NamePattern.unquote? k.name = none := by decide
  have hcoarse : [⟨"k", .identifier, .string⟩] ⊆ keyedTwice.identifiers := by decide
  obtain ⟨once, twice, totals, totals', honce, htwice, -, htotals, htotals', hsame⟩ :=
    extremes_roll_up hs hd hx rfl hfine hcoarse
  obtain ⟨direct, hdirect, hcollect⟩ := drainsTo_greatestByKey
  cases honce.symm.trans hdirect
  cases htotals.symm.trans hcollect
  exact ⟨hs, hd, hfine, hcoarse, totals', ⟨twice, htwice, htotals'⟩, hsame⟩

end DataCube
