import DataCube.Proofs.Splits
import DataCube.Proofs.Windows

/-!
# Rows of reduced measures

Both forms of a reducer build rows in which the measures are reduced and the other columns are taken
over: the aggregate form takes over the key of a group, the analytic form the identifiers and
attributes of each row.  What is taken over always has a place, so building such a row only depends
on whether the columns of the measures take the reduced values.

* `Reducer.runRows_eq_run`: reducing a measure over rows is reducing the list of its values.
* `Draft.get?_build_remeasured`, `Draft.exists_build_remeasured`: rows of a schema whose measures
  have new domains.
* `Statistic.RowOf`: the row of a group.  `Statistic.rowOf_groupRow` and `Statistic.exists_groupRow`
  say that it is built wherever it can be.
* `Reducer.RowOver`: a row of the analytic form, with `Reducer.rowOver_partition` and
  `Reducer.exists_partition` in the same way.  It needs measures that their stored names refer to;
  `Reducer.RowPlaced` is the row that there is without that.
* `Statistic.drainsTo_aggregate`, `Reducer.drainsTo_analytic`: what the two expressions drain to.
-/

namespace DataCube

/-! ## The values of a measure -/

namespace Accumulator

theorem isCount_accumulate_of_isCount {a : Accumulator} (ha : a.state.isCount = true)
    (input : Option Scalar) : (a.accumulate input).state.isCount = true := by
  obtain ⟨state, integerOnly⟩ := a
  cases state with
  | count n => rfl
  | _ => nomatch ha

/-- A count notices a value no more than the presence of a row. -/
theorem accumulate_of_isCount {a : Accumulator} (ha : a.state.isCount = true)
    (input input' : Option Scalar) : a.accumulate input = a.accumulate input' := by
  obtain ⟨state, integerOnly⟩ := a
  cases state with
  | count n => rfl
  | _ => nomatch ha

end Accumulator

namespace Reducer

theorem extract_of_ne_count {r : Reducer} (hr : r ≠ .statistic .count) (m : Component) (row : Row) :
    r.extract m row = some (row.valueOf m) := by
  unfold extract
  split
  · exact absurd rfl hr
  · rfl

theorem foldl_count {a : Accumulator} (ha : a.state.isCount = true) (m : Component)
    (rows : List Row) :
    rows.foldl (fun a row => a.accumulate ((statistic .count).extract m row)) a =
      (rows.map (·.valueOf m)).foldl (fun a v => a.accumulate (some v)) a := by
  induction rows generalizing a with
  | nil => rfl
  | cons row rows ih =>
    rw [List.foldl_cons, List.map_cons, List.foldl_cons,
      Accumulator.accumulate_of_isCount ha _ (some (row.valueOf m)),
      ih (Accumulator.isCount_accumulate_of_isCount ha _)]

/-- Reducing a measure over rows is reducing the list of its values; a count, which reads no values,
counts them as well. -/
theorem runRows_eq_run (r : Reducer) (m : Component) (rows : List Row) :
    r.runRows m rows = r.run (rows.map (·.valueOf m)) := by
  by_cases hr : r = .statistic .count
  · subst hr
    exact foldl_count rfl m rows
  · rw [runRows_eq_fold, run_eq_fold, List.map_map]
    exact congrArg r.fold (List.map_congr_left fun row _ => extract_of_ne_count hr m row)

theorem reduceRows_eq_reduce (r : Reducer) (m : Component) (rows : List Row) :
    r.reduceRows m rows = r.reduce (rows.map (·.valueOf m)) :=
  congrArg r.finish (r.runRows_eq_run m rows)

end Reducer

/-! ## New domains for the measures -/

namespace Draft

variable {d : Draft} {s target : Schema} {domainOf : Component → Except EvalError Domain}
  {lineage : Lineage} {r : Row}

/-- A component has what its column takes of the value that the draft has for it. -/
theorem get?_build_remeasured (htarget : s.mapMeasures domainOf = .ok target)
    (h : d.build target lineage = .ok r) {c : Component} (hc : c ∈ s.components) {x : Scalar}
    (hx : d.get? c.name = some x) :
    ∃ c' ∈ target.components, Schema.Remeasured domainOf c c' ∧
      ∃ v, c'.store x = .ok v ∧ r.get? c.name = some v := by
  obtain ⟨c', hc', hrel⟩ := Schema.exists_remeasured htarget hc
  obtain ⟨v, hv, hget⟩ := get?_build h hc'
  rw [valueFor, hrel.name, hx] at hv
  exact ⟨c', hc', hrel, v, hv, hrel.name ▸ hget⟩

/-- A component whose column is taken over has the value that the draft has for it. -/
theorem get?_build_other (htarget : s.mapMeasures domainOf = .ok target)
    (h : d.build target lineage = .ok r) {c : Component} (hc : c ∈ s.components)
    (hrole : c.role ≠ .measure) {x : Scalar} (hx : d.get? c.name = some x)
    (hdomain : c.domain.Describes x.domain) : r.get? c.name = some x := by
  obtain ⟨c', -, hrel, v, hv, hget⟩ := get?_build_remeasured htarget h hc hx
  rw [hrel.other hrole, Component.store_of_describes hdomain] at hv
  rw [hget, Except.ok.inj hv]

/-- A row is built if every column takes the value that the draft has for its component. -/
theorem exists_build_remeasured (htarget : s.mapMeasures domainOf = .ok target)
    (lineage : Lineage)
    (h : ∀ c ∈ s.components, ∃ x, d.get? c.name = some x ∧ ∀ c' ∈ target.components,
      Schema.Remeasured domainOf c c' → ∃ v, c'.store x = .ok v) :
    ∃ r, d.build target lineage = .ok r := by
  refine exists_build lineage fun c' hc' => ?_
  obtain ⟨c, hc, hrel⟩ := Schema.exists_source htarget hc'
  obtain ⟨x, hx, hstore⟩ := h c hc
  rw [valueFor, hrel.name, hx]
  exact hstore c' hc' hrel

end Draft

/-! ## Rows of groups -/

/-- The key is made of values for the key components, of domains that go with them. -/
def Group.KeyedBy (g : Group) (keys : List Component) : Prop :=
  ∃ f : Component → Scalar, g.key = keys.map f ∧ ∀ k ∈ keys, k.domain.Describes (f k).domain

namespace Statistic

variable {s : Statistic} {schema target : Schema} {names : List String} {keys : List Component}
  {g : Group} {r : Row}

theorem mem_identifiers_of_groupKeys? (h : groupKeys? schema names = .ok keys) {k : Component}
    (hk : k ∈ keys) : k ∈ schema.identifiers := by
  obtain ⟨name, -, hname⟩ := exists_of_mem_mapM h hk
  exact Schema.mem_of_requireIdentifier hname

/-- The columns of the result, before their domains are found. -/
def columns (schema : Schema) (keys : List Component) : Schema :=
  schema.restrict fun c => keys.contains c || c.role = .measure

theorem mem_columns {c : Component} :
    c ∈ (columns schema keys).components ↔
      c ∈ schema.components ∧ (c ∈ keys ∨ c.role = .measure) := by
  unfold columns Schema.restrict
  rw [List.mem_filter, Bool.or_eq_true, List.contains_iff_mem, decide_eq_true_iff]

theorem measures_columns (schema : Schema) (keys : List Component) :
    (columns schema keys).measures = schema.measures := by
  unfold columns Schema.restrict Schema.measures Schema.withRole
  rw [List.filter_filter]
  refine List.filter_congr fun c _ => ?_
  cases decide (c.role = .measure) <;> simp

theorem outputSchema_eq_ok :
    s.outputSchema schema names = .ok target ↔
      ∃ keys, groupKeys? schema names = .ok keys ∧
        (columns schema keys).mapMeasures (fun m => s.outputDomain? m.domain) = .ok target :=
  bind_eq_ok

/-- The row of a group: its key, and what the columns take of the reduced measures. -/
structure RowOf (s : Statistic) (keys measures : List Component) (target : Schema) (g : Group)
    (r : Row) : Prop where
  schema : r.schema = target
  lineage : r.lineage = .group (contributions g.rows)
  key : keys.map r.valueOf = g.key
  measure : ∀ m ∈ measures, ∃ c ∈ target.components, c.name = m.name ∧
    s.outputDomain? m.domain = .ok c.domain ∧
      ∃ v, c.store (s.reduceRows m g.rows) = .ok v ∧ r.get? m.name = some v

/-- The values that the row of a group is built from. -/
def groupDraft (s : Statistic) (keys measures : List Component) (g : Group) : Draft :=
  (Draft.empty.setAll (keys.zip g.key)).setAll (measures.map fun m => (m, s.reduceRows m g.rows))

theorem groupRow_eq (measures : List Component) :
    s.groupRow keys measures target g =
      (s.groupDraft keys measures g).build target (.group (contributions g.rows)) := rfl

/-- A measure has its reduced value. -/
theorem get?_groupDraft_measure {m : Component} (hm : m ∈ schema.measures) :
    (s.groupDraft keys schema.measures g).get? m.name = some (s.reduceRows m g.rows) := by
  obtain ⟨hmem, hrole⟩ := Schema.mem_measures.1 hm
  exact Draft.get?_setAll_withRole hmem (Or.inl ⟨hrole, rfl⟩)

/-- A key component has its value of the key. -/
theorem get?_groupDraft_key (hkeys : ∀ k ∈ keys, k ∈ schema.identifiers) {f : Component → Scalar}
    (hkey : g.key = keys.map f) {k : Component} (hk : k ∈ keys) :
    (s.groupDraft keys schema.measures g).get? k.name = some (f k) := by
  have hmem : ∀ k ∈ keys, k ∈ schema.components :=
    fun k hk => Schema.mem_of_mem_identifiers (hkeys k hk)
  have hrole : k.role = .identifier := (Schema.mem_identifiers.1 (hkeys k hk)).2
  refine Draft.get?_setAll_withRole (hmem k hk) (Or.inr ⟨by rw [hrole]; decide, ?_⟩)
  rw [hkey, ← List.map_prod_left_eq_zip]
  exact Draft.get?_setAll_map hmem (hmem k hk) (Or.inl ⟨hk, rfl⟩)

theorem rowOf_groupRow (hkeys : ∀ k ∈ keys, k ∈ schema.identifiers)
    (htarget : (columns schema keys).mapMeasures (fun m => s.outputDomain? m.domain) = .ok target)
    (hg : g.KeyedBy keys) (h : s.groupRow keys schema.measures target g = .ok r) :
    s.RowOf keys schema.measures target g r := by
  rw [groupRow_eq] at h
  obtain ⟨f, hf, hdomain⟩ := hg
  obtain ⟨hschema, hlineage, -⟩ := Draft.build_eq_ok.1 h
  refine ⟨hschema, hlineage, ?_, fun m hm => ?_⟩
  · rw [hf]
    refine List.map_congr_left fun k hk => ?_
    have hrole : k.role = .identifier := (Schema.mem_identifiers.1 (hkeys k hk)).2
    have hcolumn : k ∈ (columns schema keys).components :=
      mem_columns.2 ⟨Schema.mem_of_mem_identifiers (hkeys k hk), Or.inl hk⟩
    have hget := Draft.get?_build_other htarget h hcolumn (by rw [hrole]; decide)
      (get?_groupDraft_key hkeys hf hk) (hdomain k hk)
    rw [Row.valueOf, hget, Option.getD_some]
  · obtain ⟨hmem, hrole⟩ := Schema.mem_measures.1 hm
    obtain ⟨c, hc, hrel, v, hv, hget⟩ := Draft.get?_build_remeasured htarget h
      (mem_columns.2 ⟨hmem, Or.inr hrole⟩) (get?_groupDraft_measure hm)
    exact ⟨c, hc, hrel.name, hrel.measure hrole, v, hv, hget⟩

/-- A group has a row if the columns take its reduced measures. -/
theorem exists_groupRow (hkeys : ∀ k ∈ keys, k ∈ schema.identifiers)
    (htarget : (columns schema keys).mapMeasures (fun m => s.outputDomain? m.domain) = .ok target)
    (hg : g.KeyedBy keys)
    (h : ∀ m ∈ schema.measures, ∀ c ∈ target.components, c.name = m.name →
      s.outputDomain? m.domain = .ok c.domain →
        ∃ v, c.store (s.reduceRows m g.rows) = .ok v) :
    ∃ r, s.groupRow keys schema.measures target g = .ok r := by
  obtain ⟨f, hf, hdomain⟩ := hg
  refine Draft.exists_build_remeasured htarget _ fun c hc => ?_
  obtain ⟨hmem, hkept⟩ := mem_columns.1 hc
  by_cases hrole : c.role = .measure
  · have hm : c ∈ schema.measures := Schema.mem_measures.2 ⟨hmem, hrole⟩
    refine ⟨_, get?_groupDraft_measure hm, fun c' hc' hrel => ?_⟩
    exact h c hm c' hc' hrel.name (hrel.measure hrole)
  · have hk : c ∈ keys := hkept.resolve_right hrole
    refine ⟨_, get?_groupDraft_key hkeys hf hk, fun c' _ hrel => ⟨f c, ?_⟩⟩
    rw [hrel.other hrole]
    exact Component.store_of_describes (hdomain c hk)

end Statistic

/-! ## Rows over a window -/

namespace Reducer

variable {r : Reducer} {schema target : Schema} {label : String}
  {column : Component → List Scalar} {own made : Row} {i : Nat}

theorem describes_fit {v w : Scalar} {d : Domain} (h : fit v d = .ok w) : d.Describes w.domain := by
  unfold fit at h
  split at h
  · split at h
    · exact Or.inl (by rw [← Except.ok.inj h]; rfl)
    · exact Scalar.describes_cast h
  · exact Scalar.describes_cast h

/-- A row of the analytic form: what the row itself has, and the values of the measures as they fit
into the columns. -/
structure RowOver (r : Reducer) (target : Schema) (label : String) (value : Component → Scalar)
    (own made : Row) : Prop where
  schema : made.schema = target
  lineage : made.lineage = DataSet.derivedLineage label own
  kept : ∀ c ∈ own.schema.components, c.role ≠ .measure → made.get? c.name = own.get? c.name
  measure : ∀ m ∈ own.schema.measures, ∃ c ∈ target.components, c.name = m.name ∧
    r.outputDomain? m.domain = .ok c.domain ∧
      ∃ v, fit (value m) c.domain = .ok v ∧ made.get? m.name = some v

/-- The same whatever the stored names of the measures refer to.  A measure that its name refers to
has the value as it fits into its column.  In any case the value is fitted into the column that the
name refers to, and the column of the measure takes what this gives. -/
structure RowPlaced (r : Reducer) (target : Schema) (label : String) (value : Component → Scalar)
    (own made : Row) : Prop where
  schema : made.schema = target
  lineage : made.lineage = DataSet.derivedLineage label own
  kept : ∀ c ∈ own.schema.components, c.role ≠ .measure → made.get? c.name = own.get? c.name
  fitted : ∀ m ∈ own.schema.measures, own.schema.component? m.name = some m →
    ∃ c ∈ target.components, c.name = m.name ∧ r.outputDomain? m.domain = .ok c.domain ∧
      ∃ v, fit (value m) c.domain = .ok v ∧ made.get? m.name = some v
  refitted : ∀ m ∈ own.schema.measures,
    ∃ c ∈ target.components, c.name = m.name ∧ r.outputDomain? m.domain = .ok c.domain ∧
      ∃ found u v, target.component? m.name = some found ∧ fit (value m) found.domain = .ok u ∧
        c.store u = .ok v ∧ made.get? m.name = some v

/-- A measure that its name refers to is looked up again among the reduced measures. -/
theorem require_reduced
    (htarget : schema.mapMeasures (fun m => r.outputDomain? m.domain) = .ok target) {m : Component}
    (hm : schema.component? m.name = some m) :
    ∃ c, target.require m.name = .ok c ∧
      Schema.Remeasured (fun m => r.outputDomain? m.domain) m c := by
  obtain ⟨c, hc, hrel⟩ := Schema.component?_mapMeasures htarget hm
  exact ⟨c, Schema.require_eq_ok.2 hc, hrel⟩

/-- A measure with the value that is taken for it. -/
def Taken (target : Schema) (value : Component → Scalar) (m : Component) (e : Component × Scalar) :
    Prop :=
  e.1 = m ∧ ∃ c, target.require m.name = .ok c ∧ fit (value m) c.domain = .ok e.2

theorem row_eq_ok :
    row target label (schema.measures.map fun m => (m, column m)) own i = .ok made ↔
      ∃ entries, List.Forall₂ (Taken target fun m => (column m).getD i (.null .null))
          schema.measures entries ∧
        ((Window.ownValues own).setAll entries).build target (DataSet.derivedLineage label own) =
          .ok made := by
  unfold row
  rw [bind_eq_ok]
  refine exists_congr fun entries => and_congr_left fun _ => ?_
  rw [mapM_eq_ok, List.forall₂_map_left_iff]
  have htaken (m : Component) (e : Component × Scalar) :
      (do
        let component ← target.require m.name
        let v ← fit ((column m).getD i (.null .null)) component.domain
        pure (m, v)) = .ok e ↔ Taken target (fun m => (column m).getD i (.null .null)) m e := by
    rw [bind_eq_ok]
    constructor
    · rintro ⟨c, hc, h⟩
      obtain ⟨v, hv, h⟩ := bind_eq_ok.1 h
      cases Except.ok.inj h
      exact ⟨rfl, c, hc, hv⟩
    · rintro ⟨rfl, c, hc, hv⟩
      exact ⟨c, hc, bind_eq_ok.2 ⟨e.2, hv, rfl⟩⟩
  simp only [htaken]

section

variable {value : Component → Scalar} {entries : List (Component × Scalar)}

/-- The draft of a row has the value taken for each measure. -/
theorem get?_taken (hentries : List.Forall₂ (Taken target value) schema.measures entries)
    (d : Draft) {m c : Component} (hm : m ∈ schema.measures) (hc : target.require m.name = .ok c) :
    ∃ v, (d.setAll entries).get? m.name = some v ∧ fit (value m) c.domain = .ok v := by
  obtain ⟨e, he, hsame, -⟩ := exists_of_forall₂ hentries hm
  refine Draft.get?_setAll (Or.inr ⟨e, he, by rw [hsame]⟩) fun e' he' hname => ?_
  obtain ⟨m', hm', hsame', c', hc', hfit⟩ := exists_of_forall₂ hentries.flip he'
  have hmm : m' = m := Schema.eq_of_name (Schema.mem_measures.1 hm').1 (Schema.mem_measures.1 hm).1
    (by rw [← hsame', hname])
  subst hmm
  rw [hc] at hc'
  cases hc'
  exact hfit

/-- The draft of a row has what the row itself has for everything else. -/
theorem get?_own (hentries : List.Forall₂ (Taken target value) own.schema.measures entries)
    (hown : own.WellFormed) {c : Component} (hc : c ∈ own.schema.components)
    (hrole : c.role ≠ .measure) :
    ((Window.ownValues own).setAll entries).get? c.name = some (own.valueOf c) := by
  obtain ⟨v, hv, rfl⟩ := Draft.get?_setAll (P := fun v => v = own.valueOf c)
    (Or.inl ⟨_, Window.get?_ownValues hown hc hrole, rfl⟩)
    fun e he hname => by
      obtain ⟨m, hm, hsame, -⟩ := exists_of_forall₂ hentries.flip he
      obtain ⟨hm, hmeasure⟩ := Schema.mem_measures.1 hm
      have hmc : m = c := Schema.eq_of_name hm hc (by rw [← hsame, hname])
      exact absurd (hmc ▸ hmeasure) hrole
  exact hv

end

theorem rowPlaced_row (hown : own.WellFormed)
    (htarget : own.schema.mapMeasures (fun m => r.outputDomain? m.domain) = .ok target)
    (h : row target label (own.schema.measures.map fun m => (m, column m)) own i = .ok made) :
    r.RowPlaced target label (fun m => (column m).getD i (.null .null)) own made := by
  obtain ⟨entries, hentries, hbuild⟩ := row_eq_ok.1 h
  obtain ⟨hschema, hlineage, -⟩ := Draft.build_eq_ok.1 hbuild
  have hrefitted : ∀ m ∈ own.schema.measures, ∃ c ∈ target.components, c.name = m.name ∧
      r.outputDomain? m.domain = .ok c.domain ∧
        ∃ found u v, target.component? m.name = some found ∧
          fit ((column m).getD i (.null .null)) found.domain = .ok u ∧
            c.store u = .ok v ∧ made.get? m.name = some v := by
    intro m hm
    obtain ⟨hmem, hrole⟩ := Schema.mem_measures.1 hm
    obtain ⟨e, -, -, found, hfound, -⟩ := exists_of_forall₂ hentries hm
    obtain ⟨u, hu, hfit⟩ := get?_taken hentries (Window.ownValues own) hm hfound
    obtain ⟨c, hc, hrel, v, hv, hget⟩ := Draft.get?_build_remeasured htarget hbuild hmem hu
    exact ⟨c, hc, hrel.name, hrel.measure hrole, found, u, v, Schema.require_eq_ok.1 hfound, hfit,
      hv, hget⟩
  refine ⟨hschema, hlineage, fun c hc hrole => ?_, fun m hm hfind => ?_, hrefitted⟩
  · rw [hown.get?_eq_valueOf hc]
    exact Draft.get?_build_other htarget hbuild hc hrole (get?_own hentries hown hc hrole)
      (hown.describes_valueOf hc)
  · obtain ⟨c, hc, hname, hdomain, found, u, v, hfound, hfit, hv, hget⟩ := hrefitted m hm
    obtain ⟨c', hrequire, hrel⟩ := require_reduced htarget hfind
    cases hfound.symm.trans (Schema.require_eq_ok.1 hrequire)
    have hsame : c = found :=
      Schema.eq_of_name hc (Schema.mem_of_require hrequire) (by rw [hname, hrel.name])
    subst hsame
    rw [Component.store_of_describes (describes_fit hfit)] at hv
    cases hv
    exact ⟨c, hc, hname, hdomain, u, hfit, hget⟩

theorem RowPlaced.rowOver {value : Component → Scalar}
    (h : r.RowPlaced target label value own made)
    (hfind : ∀ m ∈ own.schema.measures, own.schema.component? m.name = some m) :
    r.RowOver target label value own made :=
  ⟨h.schema, h.lineage, h.kept, fun m hm => h.fitted m hm (hfind m hm)⟩

/-- There is a row if the values fit into the columns. -/
theorem exists_row (hown : own.WellFormed)
    (htarget : own.schema.mapMeasures (fun m => r.outputDomain? m.domain) = .ok target)
    (hfind : ∀ m ∈ own.schema.measures, own.schema.component? m.name = some m)
    (h : ∀ m ∈ own.schema.measures, ∀ d, r.outputDomain? m.domain = .ok d →
      ∃ v, fit ((column m).getD i (.null .null)) d = .ok v) :
    ∃ made, row target label (own.schema.measures.map fun m => (m, column m)) own i = .ok made := by
  obtain ⟨entries, hentries⟩ : ∃ entries,
      List.Forall₂ (Taken target fun m => (column m).getD i (.null .null)) own.schema.measures
        entries := by
    refine exists_forall₂ fun m hm => ?_
    obtain ⟨c, hrequire, hrel⟩ := require_reduced htarget (hfind m hm)
    obtain ⟨v, hv⟩ := h m hm c.domain (hrel.measure (Schema.mem_measures.1 hm).2)
    exact ⟨(m, v), rfl, c, hrequire, hv⟩
  obtain ⟨made, hmade⟩ : ∃ made, ((Window.ownValues own).setAll entries).build target
      (DataSet.derivedLineage label own) = .ok made := by
    refine Draft.exists_build_remeasured htarget _ fun c hc => ?_
    by_cases hrole : c.role = .measure
    · have hm : c ∈ own.schema.measures := Schema.mem_measures.2 ⟨hc, hrole⟩
      obtain ⟨c', hrequire, hrel⟩ := require_reduced htarget (hfind c hm)
      obtain ⟨x, hx, hfit⟩ := get?_taken hentries (Window.ownValues own) hm hrequire
      refine ⟨x, hx, fun c'' hc'' hrel' => ⟨x, ?_⟩⟩
      have hsame : c'' = c' := Schema.eq_of_name hc'' (Schema.mem_of_require hrequire)
        (by rw [hrel'.name, hrel.name])
      rw [hsame]
      exact Component.store_of_describes (describes_fit hfit)
    · refine ⟨_, get?_own hentries hown hc hrole, fun c' _ hrel => ⟨own.valueOf c, ?_⟩⟩
      rw [hrel.other hrole]
      exact Component.store_of_describes (hown.describes_valueOf hc)
  exact ⟨made, row_eq_ok.2 ⟨entries, hentries, hmade⟩⟩

/-! ## Partitions -/

section

variable {rows part : List Row} {isRunning : Bool}

theorem rowPlaced_partition (hrows : ∀ own ∈ rows, own.schema = schema ∧ own.WellFormed)
    (htarget : schema.mapMeasures (fun m => r.outputDomain? m.domain) = .ok target)
    (h : r.partition isRunning schema.measures target label rows = .ok part) :
    List.Forall₂ (fun e made => r.RowPlaced target label
      (fun m => (r.column isRunning rows m).getD e.2 (.null .null)) e.1 made) rows.zipIdx part := by
  refine (forall₂_mem (mapM_eq_ok.1 h)).imp fun e made he => ?_
  obtain ⟨hrow, hmem, -⟩ := he
  obtain ⟨rfl, hown⟩ := hrows e.1 (List.fst_mem_of_mem_zipIdx hmem)
  exact rowPlaced_row hown htarget hrow

theorem rowOver_partition (hrows : ∀ own ∈ rows, own.schema = schema ∧ own.WellFormed)
    (htarget : schema.mapMeasures (fun m => r.outputDomain? m.domain) = .ok target)
    (hfind : ∀ m ∈ schema.measures, schema.component? m.name = some m)
    (h : r.partition isRunning schema.measures target label rows = .ok part) :
    List.Forall₂ (fun e made => r.RowOver target label
      (fun m => (r.column isRunning rows m).getD e.2 (.null .null)) e.1 made) rows.zipIdx part := by
  refine (forall₂_mem (rowPlaced_partition hrows htarget h)).imp fun e made he => ?_
  obtain ⟨hrow, hmem, -⟩ := he
  obtain ⟨rfl, -⟩ := hrows e.1 (List.fst_mem_of_mem_zipIdx hmem)
  exact hrow.rowOver hfind

/-- A partition has its rows if the values of each place fit into the columns. -/
theorem exists_partition (hrows : ∀ own ∈ rows, own.schema = schema ∧ own.WellFormed)
    (htarget : schema.mapMeasures (fun m => r.outputDomain? m.domain) = .ok target)
    (hfind : ∀ m ∈ schema.measures, schema.component? m.name = some m)
    (h : ∀ i < rows.length, ∀ m ∈ schema.measures, ∀ d, r.outputDomain? m.domain = .ok d →
      ∃ v, fit ((r.column isRunning rows m).getD i (.null .null)) d = .ok v) :
    ∃ part, r.partition isRunning schema.measures target label rows = .ok part := by
  refine exists_mapM_eq_ok fun e he => ?_
  obtain ⟨rfl, hown⟩ := hrows e.1 (List.fst_mem_of_mem_zipIdx he)
  obtain ⟨hi, -⟩ := List.getElem?_eq_some_iff.1 (List.mk_mem_zipIdx_iff_getElem?.1 he)
  exact exists_row hown htarget hfind (h e.2 hi)

/-- Where a window does not sort, every place has the reduction of the whole partition. -/
theorem getD_column_whole (r : Reducer) (m : Component) (hi : i < rows.length) :
    (r.column false rows m).getD i (.null .null) = r.reduceRows m rows := by
  rw [column, if_neg Bool.false_ne_true, List.getD_eq_getElem?_getD,
    List.getElem?_replicate_of_lt hi, Option.getD_some]

theorem rowOver_partition_whole (hrows : ∀ own ∈ rows, own.schema = schema ∧ own.WellFormed)
    (htarget : schema.mapMeasures (fun m => r.outputDomain? m.domain) = .ok target)
    (hfind : ∀ m ∈ schema.measures, schema.component? m.name = some m)
    (h : r.partition false schema.measures target label rows = .ok part) :
    List.Forall₂ (r.RowOver target label fun m => r.reduceRows m rows) rows part := by
  have hplaces := rowOver_partition hrows htarget hfind h
  refine forall₂_of_zipIdx ((forall₂_mem hplaces).imp fun e made he => ?_)
  obtain ⟨hrow, hmem, -⟩ := he
  obtain ⟨hi, -⟩ := List.getElem?_eq_some_iff.1 (List.mk_mem_zipIdx_iff_getElem?.1 hmem)
  simp only [getD_column_whole r _ hi] at hrow
  exact hrow

end

end Reducer

/-! ## Draining -/

/-- The expression amounts to a dataset that drains to the rows without an error. -/
def Expr.DrainsTo (e : Expr) (scope : Scope) (rows : List Row) : Prop :=
  ∃ d, e.eval scope = .ok (.dataset d) ∧ d.collect = .ok rows

section

variable {x : Expr} {scope : Scope} {d : DataSet}

theorem Statistic.collect_runGroups (s : Statistic) (keys : List Component) (target : Schema)
    (d : DataSet) : (s.runGroups keys target d).collect =
      (groups keys d >>= fun gs => gs.mapM (s.groupRow keys d.schema.measures target)) :=
  RowStream.collect_ofResult _

/-- What an aggregate amounts to, where its keys are identifiers and its measures can be reduced. -/
theorem Statistic.eval_aggregate {s : Statistic} {names : List String} {keys : List Component}
    {target : Schema} (hx : x.eval scope = .ok (.dataset d))
    (hkeys : groupKeys? d.schema names = .ok keys)
    (hcolumns : (columns d.schema keys).mapMeasures (fun m => s.outputDomain? m.domain) =
      .ok target) :
    (Expr.aggregate s x names).eval scope = .ok (.dataset (s.runGroups keys target d)) := by
  have htarget : s.outputSchema d.schema names = .ok target :=
    outputSchema_eq_ok.2 ⟨keys, hkeys, hcolumns⟩
  exact bind_eq_ok.2 ⟨_, hx, bind_eq_ok.2 ⟨d, rfl, bind_eq_ok.2 ⟨target, htarget,
    bind_eq_ok.2 ⟨keys, hkeys, rfl⟩⟩⟩⟩

/-- An aggregate drains if its keys are identifiers, its measures can be reduced, its operand can be
grouped, and every group has a row. -/
theorem Statistic.drainsTo_aggregate {s : Statistic} {names : List String} {totals : List Row}
    (hx : x.eval scope = .ok (.dataset d)) :
    (Expr.aggregate s x names).DrainsTo scope totals ↔
      ∃ keys target gs, groupKeys? d.schema names = .ok keys ∧
        (columns d.schema keys).mapMeasures (fun m => s.outputDomain? m.domain) = .ok target ∧
        groups keys d = .ok gs ∧
        List.Forall₂ (fun g r => s.groupRow keys d.schema.measures target g = .ok r) gs totals := by
  constructor
  · rintro ⟨out, hout, htotals⟩
    obtain ⟨v, hv, hout⟩ := bind_eq_ok.1 hout
    cases hx.symm.trans hv
    obtain ⟨d', hd', hout⟩ := bind_eq_ok.1 hout
    cases hd'
    obtain ⟨target, htarget, hout⟩ := bind_eq_ok.1 hout
    obtain ⟨keys, hkeys, hout⟩ := bind_eq_ok.1 hout
    cases hout
    obtain ⟨keys', hkeys', hcolumns⟩ := outputSchema_eq_ok.1 htarget
    cases hkeys.symm.trans hkeys'
    rw [collect_runGroups] at htotals
    obtain ⟨gs, hgs, htotals⟩ := bind_eq_ok.1 htotals
    exact ⟨keys, target, gs, hkeys, hcolumns, hgs, mapM_eq_ok.1 htotals⟩
  · rintro ⟨keys, target, gs, hkeys, hcolumns, hgs, htotals⟩
    refine ⟨s.runGroups keys target d, eval_aggregate hx hkeys hcolumns, ?_⟩
    rw [collect_runGroups]
    exact bind_eq_ok.2 ⟨gs, hgs, mapM_eq_ok.2 htotals⟩

/-- An analytic drains if its window can be resolved, its measures can be reduced, its operand can
be cut, and every partition has its rows. -/
theorem Reducer.drainsTo_analytic {r : Reducer} {spec : WindowSpec} {made : List Row}
    (hx : x.eval scope = .ok (.dataset d)) :
    (Expr.analytic r x spec).DrainsTo scope made ↔
      ∃ w target groups parts, Window.resolve? d.schema spec .whole = .ok w ∧
        d.schema.mapMeasures (fun m => r.outputDomain? m.domain) = .ok target ∧
        w.partitions d = .ok groups ∧
        List.Forall₂ (fun g part => r.partition w.isOrdered d.schema.measures target
          (Expr.analytic r x spec).text (Group.rows g) = .ok part) groups parts ∧
        parts.flatten = made := by
  have hcollect (w : Window) (target : Schema) (label : String) :
      (r.runWindow w target label d).collect = (w.partitions d >>= fun groups =>
        Window.perPartition groups (r.partition w.isOrdered d.schema.measures target label)) :=
    RowStream.collect_ofResult _
  constructor
  · rintro ⟨out, hout, hmade⟩
    obtain ⟨v, hv, hout⟩ := bind_eq_ok.1 hout
    cases hx.symm.trans hv
    obtain ⟨d', hd', hout⟩ := bind_eq_ok.1 hout
    cases hd'
    obtain ⟨target, htarget, hout⟩ := bind_eq_ok.1 hout
    obtain ⟨w, hw, hout⟩ := bind_eq_ok.1 hout
    cases hout
    obtain ⟨_, -, hmeasures⟩ := bind_eq_ok.1 htarget
    rw [hcollect] at hmade
    obtain ⟨groups, hgroups, hmade⟩ := bind_eq_ok.1 hmade
    obtain ⟨parts, hparts, hflatten⟩ := Window.perPartition_eq_ok.1 hmade
    exact ⟨w, target, groups, parts, hw, hmeasures, hgroups, hparts, hflatten⟩
  · rintro ⟨w, target, groups, parts, hw, hmeasures, hgroups, hparts, hflatten⟩
    have htarget : r.outputSchema d.schema spec = .ok target :=
      bind_eq_ok.2 ⟨w, hw, hmeasures⟩
    refine ⟨r.runWindow w target (Expr.analytic r x spec).text d, ?_, ?_⟩
    · exact bind_eq_ok.2 ⟨_, hx, bind_eq_ok.2 ⟨d, rfl, bind_eq_ok.2 ⟨target, htarget,
        bind_eq_ok.2 ⟨w, hw, rfl⟩⟩⟩⟩
    · rw [hcollect]
      exact bind_eq_ok.2 ⟨groups, hgroups, Window.perPartition_eq_ok.2 ⟨parts, hparts, hflatten⟩⟩

end

end DataCube
