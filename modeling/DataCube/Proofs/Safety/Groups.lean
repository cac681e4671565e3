import DataCube.Proofs.Safety.DataSets

/-!
# Groups that only fail as tolerated

Shifts, analytic reducers and aggregation look at more than one row at a time.  The rows they look
at are rows of the dataset, and so are those that the keys of groups come from.

* `DataSet.Sound.groupBy`: groups of rows of the dataset, with keys of the domains of the
  components.
* `Shift.sound_run`: nothing is added to the errors of the operand.
* `Reducer.sound_runWindow`: neither here, if no stored name has quotes.  Each reduced measure is
  looked up under its stored name, and quotes in that name are read as quoting.
* `Statistic.sound_runGroups`: a sum of integers can be refused by its column.
-/

namespace DataCube

variable {t : Tolerance} {d : DataSet}

/-! ## Groups -/

/-- Rows of the dataset, under a key of the domains of the key components. -/
structure Group.Sound (schema : Schema) (keys : List Component) (g : Group) : Prop where
  rows : ∀ r ∈ g.rows, r.schema = schema ∧ r.Exact
  key : List.Forall₂ (fun k v => v.domain = k.domain) keys g.key

theorem DataSet.Sound.groupBy (h : d.Sound t) {keys : List Component}
    (hkeys : ∀ k ∈ keys, k ∈ d.schema.components) :
    Outcome t.error (fun groups => ∀ g ∈ groups, g.Sound d.schema keys) (d.groupBy keys) := by
  obtain ⟨positions, hpositions, hplaces⟩ := keyPositions_eq_ok hkeys
  unfold DataSet.groupBy
  rw [hpositions]
  refine Outcome.bind (f := fun rows => pure (PartitionMap.ofRows positions (numbered rows)).groups)
    h.collect fun rows _ hrows g hg => ?_
  have hgrouped := grouped_ofRows positions rows
  have hmem : ∀ r ∈ g.rows, r ∈ rows := by
    intro r hr
    rw [hgrouped.rows_eq g hg] at hr
    exact List.mem_of_mem_filter hr
  refine ⟨fun r hr => hrows r (hmem r hr), ?_⟩
  obtain ⟨first, rest, hfirst, hkey⟩ := hgrouped.first g hg
  have hfirst : first ∈ g.rows := by
    rw [hfirst]
    exact List.mem_cons_self
  obtain ⟨hschema, hexact⟩ := hrows first (hmem first hfirst)
  rw [hkey, Row.key, List.forall₂_map_right_iff]
  refine hplaces.imp fun k i hi => ?_
  rw [← hschema] at hi
  obtain ⟨v, hv, -, hdomain⟩ := hexact.getElem? hi
  rw [Row.valueAt, hv, Option.getD_some]
  exact hdomain.symm

namespace Window

/-- Sorting moves rows. -/
theorem mem_sortRows {w : Window} {rows : List Row} {r : Row} :
    r ∈ w.sortRows rows ↔ r ∈ rows := by
  unfold sortRows
  split
  · exact (List.mergeSort_perm rows _).mem_iff
  · exact Iff.rfl

theorem outcome_partitions (h : d.Sound t) {w : Window}
    (hw : ∀ k ∈ w.partition, k ∈ d.schema.components) :
    Outcome t.error (fun groups => ∀ g ∈ groups, ∀ r ∈ g.rows, r.schema = d.schema ∧ r.Exact)
      (w.partitions d) := by
  refine Outcome.bind (h.groupBy hw) fun groups _ hgroups g hg r hr => ?_
  obtain ⟨g', hg', rfl⟩ := List.mem_map.1 hg
  exact (hgroups g' hg').rows r (mem_sortRows.1 hr)

theorem outcome_perPartition {fails : EvalError → Prop} {groups : List Group}
    {process : List Row → Except EvalError (List Row)}
    (h : ∀ g ∈ groups, Outcome fails (fun _ => True) (process g.rows)) :
    Outcome fails (fun _ => True) (perPartition groups process) :=
  Outcome.map (Outcome.mapM (R := fun _ _ => True) h) fun _ _ _ => trivial

/-- Values for the measures of a schema, and for nothing else. -/
structure Measures (target : Schema) (entries : List (Component × Scalar)) : Prop where
  covers : ∀ c ∈ target.components, c.role = .measure → ∃ e ∈ entries, e.1.name = c.name
  accepts : ∀ c ∈ target.components, ∀ e ∈ entries, e.1.name = c.name →
    c.role = .measure ∧ c.domain.accepts e.2.domain = true

/-- Together with the measures given, the identifiers and attributes of a row make a row. -/
theorem supplies_ownValues {target : Schema} {r : Row} (hexact : r.Exact)
    (hown : ∀ c ∈ target.components, c.role ≠ .measure → c ∈ r.schema.components)
    {entries : List (Component × Scalar)} (hentries : Measures target entries) {c : Component}
    (hc : c ∈ target.components) : ((ownValues r).setAll entries).Supplies c := by
  have hdomain (e : Component × Scalar) (he : e ∈ entries) (hname : e.1.name = c.name) :=
    (hentries.accepts c hc e he hname).2
  by_cases hrole : c.role = .measure
  · exact Draft.supplies_setAll (Or.inr (hentries.covers c hc hrole)) hdomain
  · have hmem := hown c hc hrole
    obtain ⟨v, -, hentry, -⟩ := hexact.exists_entry hmem
    have haccepts (role : Role) (e : Component × Scalar) (he : e ∈ r.entriesWith role)
        (hname : e.1.name = c.name) : c.domain.accepts e.2.domain = true :=
      hexact.accepts hmem (Row.mem_entriesWith.1 he).1 hname
    refine Draft.supplies_setAll (Or.inl ?_) hdomain
    cases hc' : c.role with
    | measure => exact absurd hc' hrole
    | identifier =>
      refine Draft.supplies_setAll (Or.inl ?_) (haccepts .attribute)
      refine Draft.supplies_setAll (Or.inr ⟨(c, v), ?_, rfl⟩) (haccepts .identifier)
      exact Row.mem_entriesWith.2 ⟨hentry, hc'⟩
    | _ =>
      -- an attribute
      refine Draft.supplies_setAll (Or.inr ⟨(c, v), ?_, rfl⟩) (haccepts .attribute)
      exact Row.mem_entriesWith.2 ⟨hentry, hc'⟩

end Window

/-! ## Shifts -/

namespace Shift

variable {schema : Schema}

theorem measures_entriesWith {r : Row} (hexact : r.Exact) :
    Window.Measures r.schema (r.entriesWith .measure) where
  covers c hc hrole := by
    obtain ⟨v, -, hentry, -⟩ := hexact.exists_entry hc
    exact ⟨(c, v), Row.mem_entriesWith.2 ⟨hentry, hrole⟩, rfl⟩
  accepts c hc e he hname := by
    obtain ⟨he, hrole⟩ := Row.mem_entriesWith.1 he
    obtain ⟨hmem, -⟩ := Row.Fits.entry hexact he
    exact ⟨Schema.eq_of_name hmem hc hname ▸ hrole, hexact.accepts hc he hname⟩

/-- A default that was checked against the measures stands in for all of them. -/
theorem outcome_fill {fails : EvalError → Prop} {default : Option Scalar}
    (hknown : ∀ c ∈ schema.components, c.domain ≠ .unknown)
    (hdefault : ∀ v, default = some v → ∀ m ∈ schema.measures, m.domain.accepts v.domain = true) :
    Outcome fails (Window.Measures schema) (fill schema default) := by
  refine (Outcome.mapM (R := fun m e => e.1 = m ∧ e.2.domain = m.domain)
    fun m hm => ?_).mono fun entries _ hentries => ?_
  · cases default with
    | none => exact ⟨rfl, rfl⟩
    | some v =>
      obtain ⟨w, hw, hdomain⟩ :=
        Domain.exists_cast (hdefault v rfl m hm) (hknown m (List.mem_of_mem_filter hm))
      show Outcome fails _ ((v.cast m.domain).map fun v => (m, v))
      rw [hw]
      exact ⟨rfl, hdomain⟩
  constructor
  case covers =>
    intro c hc hrole
    obtain ⟨e, he, heq, -⟩ := exists_of_forall₂ hentries (Schema.mem_measures.2 ⟨hc, hrole⟩)
    exact ⟨e, he, by rw [heq]⟩
  case accepts =>
    intro c hc e he hname
    obtain ⟨m, hm, heq, hdomain⟩ := exists_of_forall₂ hentries.flip he
    obtain ⟨hm, hrole⟩ := Schema.mem_measures.1 hm
    have hmc : m = c := Schema.eq_of_name hm hc (by rw [← heq, hname])
    subst hmc
    exact ⟨hrole, hdomain ▸ Domain.accepts_self _⟩

theorem outcome_partition {fails : EvalError → Prop} {direction : Shift} {offset : Nat}
    {default : Option Scalar} {label : String} {rows : List Row} (hsound : schema.Sound t)
    (hdefault : ∀ v, default = some v → ∀ m ∈ schema.measures, m.domain.accepts v.domain = true)
    (hrows : ∀ r ∈ rows, r.schema = schema ∧ r.Exact) :
    Outcome fails (fun _ => True) (direction.partition offset default schema label rows) := by
  refine (Outcome.mapM (R := fun _ _ => True) fun e he => ?_).mono fun _ _ _ => trivial
  obtain ⟨hschema, hexact⟩ := hrows e.1 (List.fst_mem_of_mem_zipIdx he)
  have hmeasures : Outcome fails (Window.Measures schema)
      (direction.measuresAt offset default schema rows e.2) := by
    unfold measuresAt
    split
    · rename_i source hsource
      obtain ⟨j, -, hj⟩ := Option.bind_eq_some_iff.1 hsource
      obtain ⟨hschema', hexact'⟩ := hrows source (List.mem_of_getElem? hj)
      exact hschema' ▸ measures_entriesWith hexact'
    · exact outcome_fill (fun c hc => (hsound c hc).1) hdefault
  refine Outcome.bind hmeasures fun entries _ hentries => ?_
  refine Draft.outcome_of_supplies _ fun c hc => ?_
  exact Window.supplies_ownValues hexact (fun c hc _ => hschema ▸ hc) hentries hc

theorem sound_run (h : d.Sound t) {direction : Shift} {offset : Nat} {default : Option Scalar}
    {spec : WindowSpec} {defaults : WindowDefaults} {w : Window} (label : String)
    (hw : Window.resolve? d.schema spec defaults = .ok w)
    (hdefault : ∀ v, default = some v → ∀ m ∈ d.schema.measures,
      m.domain.accepts v.domain = true) :
    (direction.run offset default w label d).Sound t where
  wellFormed := wellFormed_run direction offset default w label d
  schema := h.schema
  fault := by
    refine RowStream.fault_ofResult (Outcome.bind
      (Window.outcome_partitions h (Window.resolve?_eq_ok hw).1) fun groups _ hgroups => ?_)
    exact Window.outcome_perPartition fun g hg =>
      outcome_partition h.schema hdefault (hgroups g hg)

end Shift

/-! ## Analytic reducers -/

namespace Reducer

variable {r : Reducer} {target : Schema}

/-- Without quotes in its stored name, the target component of a measure is found, and takes the
result. -/
theorem exists_reduced (isRunning : Bool) {rows : List Row} (hsound : target.Sound t)
    (hplain : ∀ name, t.name name → NamePattern.unquote? name = none)
    (htarget : d.schema.mapMeasures (fun m => r.outputDomain? m.domain) = .ok target)
    (hrows : ∀ r ∈ rows, r.schema = d.schema ∧ r.Exact) {m : Component}
    (hm : m ∈ d.schema.measures) (i : Nat) :
    ∃ c ∈ target.components, c.name = m.name ∧ target.require m.name = .ok c ∧
      ∃ w, fit ((r.column isRunning rows m).getD i (.null .null)) c.domain = .ok w ∧
        w.domain = c.domain := by
  obtain ⟨hm, hrole⟩ := Schema.mem_measures.1 hm
  obtain ⟨c, hc, hrel⟩ := Schema.exists_remeasured htarget hm
  obtain ⟨hknown, hname⟩ := hsound c hc
  have hrequire : target.require m.name = .ok c :=
    hrel.name ▸ Schema.require_of_unquoted hc (hplain c.name hname)
  have hmeasured (row : Row) (hrow : row ∈ rows) (v : Scalar) (hv : row.get? m.name = some v) :
      v.domain = m.domain := by
    obtain ⟨hschema, hexact⟩ := hrows row hrow
    exact hexact.domain_of_get? (hschema ▸ hm) hv
  have hfit := exists_fit_column isRunning hmeasured (hrel.measure hrole) hknown i
  exact ⟨c, hc, hrel.name, hrequire, hfit⟩

/-- The reduced measures of a row, if their stored names have no quotes. -/
theorem outcome_reduced {fails : EvalError → Prop} {isRunning : Bool} {rows : List Row}
    (hsound : target.Sound t) (hplain : ∀ name, t.name name → NamePattern.unquote? name = none)
    (htarget : d.schema.mapMeasures (fun m => r.outputDomain? m.domain) = .ok target)
    (hrows : ∀ r ∈ rows, r.schema = d.schema ∧ r.Exact) (i : Nat) :
    Outcome fails (Window.Measures target)
      ((d.schema.measures.map fun m => (m, r.column isRunning rows m)).mapM fun e => do
        let component ← target.require e.1.name
        let v ← fit (e.2.getD i (.null .null)) component.domain
        pure (e.1, v)) := by
  -- each measure keeps its component and has the domain that the target asks for under its name
  let Reduced (e : Component × List Scalar) (e' : Component × Scalar) : Prop :=
    e'.1 = e.1 ∧ ∃ c ∈ target.components, c.name = e.1.name ∧ e'.2.domain = c.domain
  refine (Outcome.mapM (R := Reduced) fun e he => ?_).mono fun entries _ hentries => ?_
  · obtain ⟨m, hm, rfl⟩ := List.mem_map.1 he
    obtain ⟨c, hc, hname, hrequire, w, hw, hdomain⟩ :=
      exists_reduced isRunning hsound hplain htarget hrows hm i
    simp only [hrequire, hw, ok_bind]
    exact ⟨rfl, c, hc, hname, hdomain⟩
  constructor
  case covers =>
    intro c hc hrole
    obtain ⟨m, hm, hrel⟩ := Schema.exists_source htarget hc
    have hmeasure : m ∈ d.schema.measures := Schema.mem_measures.2 ⟨hm, hrel.role ▸ hrole⟩
    obtain ⟨e, he, heq, -⟩ := exists_of_forall₂ hentries (List.mem_map_of_mem hmeasure)
    exact ⟨e, he, by rw [heq, hrel.name]⟩
  case accepts =>
    intro c hc e he hname
    obtain ⟨e', he', heq, c', hc', hname', hdomain⟩ := exists_of_forall₂ hentries.flip he
    obtain ⟨m, hm, rfl⟩ := List.mem_map.1 he'
    obtain ⟨hm, hrole⟩ := Schema.mem_measures.1 hm
    have hsame : c' = c := Schema.eq_of_name hc' hc (by rw [hname', ← heq, hname])
    subst hsame
    have hrel := Schema.remeasured_of_name htarget hm hc hname'.symm
    exact ⟨hrel.role ▸ hrole, hdomain ▸ Domain.accepts_self _⟩

theorem outcome_row {fails : EvalError → Prop} {isRunning : Bool} {rows : List Row}
    (hsound : target.Sound t) (hplain : ∀ name, t.name name → NamePattern.unquote? name = none)
    (htarget : d.schema.mapMeasures (fun m => r.outputDomain? m.domain) = .ok target)
    (hrows : ∀ r ∈ rows, r.schema = d.schema ∧ r.Exact) {own : Row} (hown : own ∈ rows)
    (label : String) (i : Nat) :
    Outcome fails (fun _ => True)
      (row target label (d.schema.measures.map fun m => (m, r.column isRunning rows m)) own i) := by
  refine Outcome.bind (outcome_reduced hsound hplain htarget hrows i) fun entries _ hentries => ?_
  obtain ⟨hschema, hexact⟩ := hrows own hown
  refine Draft.outcome_of_supplies _ fun c hc => ?_
  refine Window.supplies_ownValues hexact (fun c hc hrole => ?_) hentries hc
  obtain ⟨m, hm, hrel⟩ := Schema.exists_source htarget hc
  rw [hrel.other (hrel.role ▸ hrole), hschema]
  exact hm

/-- Whatever names are stored, a value only ever has the wrong domain or no component. -/
theorem mismatch_row (target : Schema) (label : String)
    (columns : List (Component × List Scalar)) (own : Row) (i : Nat) :
    Outcome EvalError.IsMismatch (fun _ => True) (row target label columns own i) := by
  refine Outcome.bind (Outcome.mapM (R := fun _ _ => True) fun e _ => ?_)
    fun _ _ _ => Draft.mismatch_build _ _ _
  refine Outcome.bind (Schema.mismatch_require target e.1.name) fun component _ _ => ?_
  exact Outcome.bind (mismatch_fit _ _) fun _ _ _ => trivial

theorem sound_runWindow (h : d.Sound t) {spec : WindowSpec} {w : Window} (label : String)
    (htarget : r.outputSchema d.schema spec = .ok target)
    (hw : Window.resolve? d.schema spec .whole = .ok w)
    (hnames : (∀ name, t.name name → NamePattern.unquote? name = none) ∨
      ∀ e : EvalError, e.IsMismatch → t.error e) :
    (r.runWindow w target label d).Sound t where
  wellFormed := wellFormed_runWindow r w target label d
  schema := h.schema.analytic htarget
  fault := by
    refine RowStream.fault_ofResult (Outcome.bind
      (Window.outcome_partitions h (Window.resolve?_eq_ok hw).1) fun groups _ hgroups => ?_)
    refine Window.outcome_perPartition fun g hg => ?_
    refine (Outcome.mapM (R := fun _ _ => True) fun e he => ?_).mono fun _ _ _ => trivial
    rcases hnames with hplain | hmismatch
    · obtain ⟨_, -, hmeasures⟩ := bind_eq_ok.1 htarget
      exact outcome_row (h.schema.analytic htarget) hplain hmeasures (hgroups g hg)
        (List.fst_mem_of_mem_zipIdx he) label e.2
    · exact (mismatch_row _ _ _ _ _).mono_error hmismatch

end Reducer

/-! ## Aggregation -/

namespace Statistic

variable {s : Statistic} {target : Schema}

/-- The error of a component of integers that refuses a sum given as a number. -/
def sumRefused (name : String) : EvalError :=
  .incompatibleDomain (.valueOf name) .integer .number

/-- A reduced value goes into its column, or it is such a sum. -/
theorem outcome_store {c : Component} {a : Accumulator} {m : Component}
    (ha : (Reducer.statistic s).Keeps m.domain a.state)
    (hdomain : s.outputDomain? m.domain = .ok c.domain)
    (hsum : s = .sum → ∀ name, t.error (sumRefused name)) :
    Outcome t.error (fun _ => True) (c.store (s.finish a)) := by
  rcases accepts_finish ha hdomain with haccepts | ⟨hs, hinteger, hnumber⟩
  · obtain ⟨w, hw⟩ := Component.exists_store haccepts
    rw [hw]
    trivial
  · rw [Component.store_of_not_accepts (by rw [hinteger, hnumber]; rfl), hinteger, hnumber]
    exact hsum hs c.name

/-- The columns of the key are taken from the key. -/
theorem supplies_key {keys : List Component} (hkeys : ∀ k ∈ keys, k ∈ d.schema.identifiers)
    {g : Group} (hg : g.Sound d.schema keys) {c : Component} (hc : c ∈ keys) :
    (Draft.empty.setAll (keys.zip g.key)).Supplies c := by
  obtain ⟨v, hentry, -⟩ := exists_mem_zip hg.key hc
  refine Draft.supplies_setAll (Or.inr ⟨(c, v), hentry, rfl⟩) fun e he hname => ?_
  have hkey := Schema.mem_of_mem_identifiers (hkeys e.1 (List.of_mem_zip he).1)
  have hsame : e.1 = c :=
    Schema.eq_of_name hkey (Schema.mem_of_mem_identifiers (hkeys c hc)) hname
  have hvalue : e.2.domain = e.1.domain := (List.forall₂_iff_zip.1 hg.key).2 he
  rw [hvalue, hsame]
  exact Domain.accepts_self _

theorem outcome_groupRow {keys : List Component}
    (hkeys : ∀ k ∈ keys, k ∈ d.schema.identifiers)
    (htarget : (d.schema.restrict fun c => keys.contains c || c.role = .measure).mapMeasures
      (fun m => s.outputDomain? m.domain) = .ok target)
    (hsum : s = .sum → ∀ name, t.error (sumRefused name)) {g : Group}
    (hg : g.Sound d.schema keys) :
    Outcome t.error (fun _ => True) (s.groupRow keys d.schema.measures target g) := by
  refine Draft.outcome_build _ fun c' hc' => ?_
  obtain ⟨c, hc, hrel⟩ := Schema.exists_source htarget hc'
  obtain ⟨hc, hkept⟩ := List.mem_filter.1 hc
  have hmeasure (e : Component × Scalar)
      (he : e ∈ d.schema.measures.map fun m => (m, s.reduceRows m g.rows))
      (hname : e.1.name = c'.name) : c.role = .measure ∧ e.2 = s.reduceRows c g.rows := by
    obtain ⟨m, hm, rfl⟩ := List.mem_map.1 he
    obtain ⟨hm, hrole⟩ := Schema.mem_measures.1 hm
    have hmc : m = c := Schema.eq_of_name hm hc (hname.trans hrel.name)
    subst hmc
    exact ⟨hrole, rfl⟩
  by_cases hrole : c.role = .measure
  · obtain ⟨v, hv, hreduced⟩ := Draft.get?_setAll (d := Draft.empty.setAll (keys.zip g.key))
      (P := fun v => v = s.reduceRows c g.rows)
      (Or.inr ⟨_, List.mem_map_of_mem (Schema.mem_measures.2 ⟨hc, hrole⟩), hrel.name.symm⟩)
      fun e he hname => (hmeasure e he hname).2
    have hrows (r : Row) (hr : r ∈ g.rows) (v : Scalar) (hv : r.get? c.name = some v) :
        v.domain = c.domain := by
      obtain ⟨hschema, hexact⟩ := hg.rows r hr
      exact hexact.domain_of_get? (hschema ▸ hc) hv
    unfold Draft.valueFor
    rw [hv, hreduced]
    exact outcome_store (Reducer.keeps_runRows hrows) (hrel.measure hrole) hsum
  · obtain rfl : c' = c := hrel.other hrole
    rw [decide_eq_false hrole, Bool.or_false] at hkept
    have hkey := supplies_key hkeys hg (List.contains_iff_mem.1 hkept)
    refine Draft.Supplies.outcome_valueFor ?_
    exact Draft.supplies_setAll (Or.inl hkey) fun e he hname => absurd (hmeasure e he hname).1 hrole

theorem outcome_groups (h : d.Sound t) {keys : List Component}
    (hkeys : ∀ k ∈ keys, k ∈ d.schema.identifiers) :
    Outcome t.error (fun gs => ∀ g ∈ gs, g.Sound d.schema keys) (groups keys d) := by
  unfold groups
  split
  · rename_i hempty
    rw [List.isEmpty_iff.1 hempty]
    refine Outcome.bind h.collect fun rows _ hrows g hg => ?_
    rw [List.mem_singleton.1 hg]
    exact ⟨hrows, .nil⟩
  · exact h.groupBy fun k hk => Schema.mem_of_mem_identifiers (hkeys k hk)

theorem sound_runGroups (h : d.Sound t) {groupBy : List String} {keys : List Component}
    (htarget : s.outputSchema d.schema groupBy = .ok target)
    (hkeys : groupKeys? d.schema groupBy = .ok keys)
    (hsum : s = .sum → ∀ name, t.error (sumRefused name)) :
    (s.runGroups keys target d).Sound t where
  wellFormed := wellFormed_runGroups s keys target d
  schema := h.schema.aggregate htarget
  fault := by
    have hidentifiers : ∀ k ∈ keys, k ∈ d.schema.identifiers := by
      intro k hk
      obtain ⟨name, -, hname⟩ := exists_of_mem_mapM hkeys hk
      exact Schema.mem_of_requireIdentifier hname
    obtain ⟨keys', hkeys', hmeasures⟩ := bind_eq_ok.1 htarget
    rw [hkeys] at hkeys'
    cases hkeys'
    refine RowStream.fault_ofResult (Outcome.bind
      (outcome_groups h hidentifiers) fun groups _ hgroups => ?_)
    refine (Outcome.mapM (R := fun _ _ => True) fun g hg => ?_).mono fun _ _ _ => trivial
    exact outcome_groupRow hidentifiers hmeasures hsum (hgroups g hg)

end Statistic

end DataCube
