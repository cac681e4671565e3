import Mathlib.Data.Set.Defs
import Mathlib.Logic.Relation
import DataCube.Proofs.Aggregates

/-!
# Where rows come from

The lineage of a row leads through transformations and groups to the named datasets that the row was
made of.  Each operation puts a lineage of its own together from the lineages of the rows that it
works on, or hands rows on as they are, so it is an invariant of evaluation that nothing is lost on
the way.

* `Lineage.Grounded aliases totalled`: a lineage that is rooted in the named sources everywhere, and
  has a group without members only if one of certain datasets has no rows.
* `Lineage.Leads`: following the sources of transformations and the members of groups.
* `DataSet.invariant_grounded`: every operation makes grounded rows out of grounded rows.
* `Value.From`, `Scope.From`: what named datasets under these names give rise to, where aggregates
  without keys are computed of certain datasets only.
* `grounded_rows`: all rows of what an expression over such datasets amounts to are grounded.
-/

namespace DataCube

variable {aliases : Set String} {totalled : DataSet → Prop}

/-! ## Grounded lineages -/

/-- Every source is a named one, every transformation has sources, and a group only has members that
it counts rows of.  It has no members only if there are no rows to total. -/
inductive Lineage.Grounded (aliases : Set String) (totalled : DataSet → Prop) : Lineage → Prop where
  | known {name : String} : name ∈ aliases → Grounded aliases totalled (.known name)
  | node {label : String} {sources : List Lineage} :
      sources ≠ [] → (∀ l ∈ sources, Grounded aliases totalled l) →
        Grounded aliases totalled (.node label sources)
  | group {entries : List (Lineage × Nat)} :
      (∀ e ∈ entries, Grounded aliases totalled e.1) → (∀ e ∈ entries, 0 < e.2) →
        (entries = [] → ∃ d, totalled d ∧ d.collect = .ok []) →
          Grounded aliases totalled (.group entries)

namespace Lineage

/-- The sources of a transformation, or the members of a group. -/
def parts : Lineage → List Lineage
  | known _ => []
  | node _ sources => sources
  | group entries => entries.map Prod.fst
  | unknown => []

/-- One lineage is part of the other, or of one of its parts, and so on; or it is the same. -/
def Leads : Lineage → Lineage → Prop := Relation.ReflTransGen fun l m => m ∈ l.parts

/-- Following parts comes to an end. -/
theorem wellFounded_parts : WellFounded fun m l : Lineage => m ∈ l.parts := by
  refine Subrelation.wf (fun {m l} h => ?_) (measure sizeOf).wf
  show sizeOf m < sizeOf l
  cases l with
  | known name => nomatch h
  | node label sources =>
    have hlt : sizeOf m < sizeOf sources := List.sizeOf_lt_of_mem h
    rw [node.sizeOf_spec]
    omega
  | group entries =>
    obtain ⟨e, he, rfl⟩ := List.mem_map.1 h
    have hlt : sizeOf e < sizeOf entries := List.sizeOf_lt_of_mem he
    have hpair : sizeOf e = 1 + sizeOf e.1 + sizeOf e.2 := rfl
    rw [group.sizeOf_spec]
    omega
  | unknown => nomatch h

/-- Every lineage leads to one without parts. -/
theorem exists_end (l : Lineage) : ∃ m, l.Leads m ∧ m.parts = [] := by
  induction l using wellFounded_parts.induction with
  | h l ih =>
    cases hparts : l.parts with
    | nil => exact ⟨l, .refl, hparts⟩
    | cons m rest =>
      have hm : m ∈ l.parts := by rw [hparts]; exact List.mem_cons_self
      obtain ⟨last, hleads, hlast⟩ := ih m hm
      exact ⟨last, .head hm hleads, hlast⟩

namespace Grounded

variable {l m : Lineage}

theorem of_mem_parts (h : l.Grounded aliases totalled) (hm : m ∈ l.parts) :
    m.Grounded aliases totalled := by
  cases h with
  | known _ => nomatch hm
  | node _ hsources => exact hsources m hm
  | group hmembers _ _ =>
    obtain ⟨e, he, rfl⟩ := List.mem_map.1 hm
    exact hmembers e he

theorem leads (h : l.Grounded aliases totalled) (hm : l.Leads m) : m.Grounded aliases totalled := by
  induction hm with
  | refl => exact h
  | tail _ hpart ih => exact ih.of_mem_parts hpart

theorem ne_unknown (h : l.Grounded aliases totalled) : l ≠ .unknown := by
  rintro rfl
  nomatch h

/-- Only named sources have no parts, and groups of no rows. -/
theorem of_parts_eq_nil (h : l.Grounded aliases totalled) (hparts : l.parts = []) :
    (∃ name ∈ aliases, l = .known name) ∨
      (∃ g : Group, l = .group g ∧ g.total = 0) ∧ ∃ d, totalled d ∧ d.collect = .ok [] := by
  cases h with
  | known hname => exact Or.inl ⟨_, hname, rfl⟩
  | node hsources _ => exact absurd hparts hsources
  | group _ _ hvacant =>
    have hentries := List.map_eq_nil_iff.1 hparts
    exact Or.inr ⟨⟨_, rfl, by rw [hentries]; rfl⟩, hvacant hentries⟩

end Grounded

end Lineage

/-! ## Rows that are made of rows -/

/-- Every row has a grounded lineage. -/
def DataSet.Grounded (aliases : Set String) (totalled : DataSet → Prop) (d : DataSet) : Prop :=
  ∀ r ∈ d.stream.rows, r.lineage.Grounded aliases totalled

theorem Row.grounded_derived {r made : Row} {label : String}
    (h : r.lineage.Grounded aliases totalled)
    (hmade : made.lineage = DataSet.derivedLineage label r) :
    made.lineage.Grounded aliases totalled := by
  rw [hmade]
  refine .node (List.cons_ne_nil _ _) fun l hl => ?_
  rw [List.mem_singleton.1 hl]
  exact h

/-- The members of the group that counts the rows are their lineages. -/
theorem Statistic.grounded_contributions {rows : List Row}
    (h : ∀ r ∈ rows, r.lineage.Grounded aliases totalled)
    (hvacant : rows = [] → ∃ d, totalled d ∧ d.collect = .ok []) :
    (Lineage.group (contributions rows)).Grounded aliases totalled := by
  have hcounts := counts_contributions rows
  refine .group (fun e he => ?_) hcounts.positive fun hnone => hvacant ?_
  · have hcount : 0 < (contributions rows).count e.1 := by
      obtain ⟨heq, hpositive⟩ :=
        (Lineage.Group.mem_iff_count hcounts.ascending hcounts.positive).1 he
      rw [heq]
      exact hpositive
    rw [hcounts.count, List.count_pos_iff] at hcount
    obtain ⟨r, hr, hlineage⟩ := List.mem_map.1 hcount
    rw [← hlineage]
    exact h r hr
  · have htotal := hcounts.total
    rw [hnone, List.length_map] at htotal
    exact List.eq_nil_of_length_eq_zero htotal.symm

namespace DataSet

variable {d : DataSet}

theorem mem_of_groups {keys : List Component} {groups : List Group} {g : Group} {r : Row}
    (h : Statistic.groups keys d = .ok groups) (hg : g ∈ groups) (hr : r ∈ g.rows) :
    r ∈ d.stream.rows := by
  unfold Statistic.groups at h
  split at h
  · obtain ⟨rows, hrows, h⟩ := bind_eq_ok.1 h
    rw [← Except.ok.inj h, List.mem_singleton] at hg
    rw [(RowStream.collect_eq_ok.1 hrows).1]
    rwa [hg] at hr
  · exact mem_of_groupBy h hg hr

/-- A group without rows is that of all rows, of which there are none. -/
theorem eq_nil_of_groups {keys : List Component} {groups : List Group} {g : Group}
    (h : Statistic.groups keys d = .ok groups) (hg : g ∈ groups) (hnone : g.rows = []) :
    keys = [] ∧ d.collect = .ok [] := by
  unfold Statistic.groups at h
  split at h
  · rename_i hkeys
    obtain ⟨rows, hrows, h⟩ := bind_eq_ok.1 h
    rw [← Except.ok.inj h, List.mem_singleton] at hg
    rw [hg] at hnone
    exact ⟨List.isEmpty_iff.1 hkeys, hnone ▸ hrows⟩
  · obtain ⟨positions, -, h⟩ := bind_eq_ok.1 h
    obtain ⟨rows, -, h⟩ := bind_eq_ok.1 h
    cases h
    obtain ⟨first, rest, hrows, -⟩ := (grouped_ofRows positions rows).first g hg
    rw [hnone] at hrows
    nomatch hrows

/-! ## Operations -/

theorem grounded_named {name : String} {schema : Schema} {rows : List (List Scalar)}
    (hname : name ∈ aliases) (h : named name schema rows = .ok d) :
    d.Grounded aliases totalled := by
  obtain ⟨built, hbuilt, h⟩ := bind_eq_ok.1 h
  rw [← Except.ok.inj h]
  intro r hr
  obtain ⟨values, -, hr⟩ := exists_of_mem_mapM hbuilt hr
  unfold namedRow at hr
  split at hr
  · rw [(Draft.build_eq_ok.1 hr).2.1]
    exact .known hname
  · nomatch hr

/-- Rows that are made one from one. -/
theorem Grounded.mapRows (h : d.Grounded aliases totalled) {schema : Schema} (label : String)
    {f : Row → Except EvalError Row}
    (hf : ∀ r r', f r = .ok r' → r'.lineage = derivedLineage label r) :
    (d.mapRows schema f).Grounded aliases totalled := by
  intro r hr
  obtain ⟨source, hsource, hmade⟩ := RowStream.exists_of_mem_mapFrom hr
  exact Row.grounded_derived (h source hsource) (hf source r hmade)

/-- Rows that are made for the rows of each partition. -/
theorem Grounded.perPartition (h : d.Grounded aliases totalled) {schema : Schema} {w : Window}
    (label : String) {process : List Row → Except EvalError (List Row)}
    (hprocess : ∀ rows made, process rows = .ok made →
      ∀ r ∈ made, ∃ own ∈ rows, r.lineage = derivedLineage label own) :
    (derived schema fun _ => .ofResult do
      let groups ← w.partitions d
      Window.perPartition groups process).Grounded aliases totalled := by
  intro r hr
  obtain ⟨rows, hrows, hr⟩ := RowStream.exists_of_mem_ofResult hr
  obtain ⟨groups, hgroups, hrows⟩ := bind_eq_ok.1 hrows
  obtain ⟨g, hg, made, hmade, hr⟩ := Window.exists_of_mem_perPartition hrows hr
  obtain ⟨own, hown, hlineage⟩ := hprocess g.rows made hmade r hr
  exact Row.grounded_derived (h own (Window.mem_of_partitions hgroups hg hown)) hlineage

end DataSet

theorem Shift.grounded_run {d : DataSet} (h : d.Grounded aliases totalled) (direction : Shift)
    (offset : Nat) (default : Option Scalar) (w : Window) (label : String) :
    (direction.run offset default w label d).Grounded aliases totalled := by
  refine h.perPartition label fun rows made hmade r hr => ?_
  obtain ⟨e, he, hrow⟩ := exists_of_mem_mapM hmade hr
  obtain ⟨measures, -, hrow⟩ := bind_eq_ok.1 hrow
  exact ⟨e.1, List.fst_mem_of_mem_zipIdx he, (Draft.build_eq_ok.1 hrow).2.1⟩

theorem Reducer.grounded_runWindow {d : DataSet} (h : d.Grounded aliases totalled) (r : Reducer)
    (w : Window) (target : Schema) (label : String) :
    (r.runWindow w target label d).Grounded aliases totalled := by
  refine h.perPartition label fun rows made hmade r hr => ?_
  obtain ⟨e, he, hrow⟩ := exists_of_mem_mapM hmade hr
  obtain ⟨measures, -, hrow⟩ := bind_eq_ok.1 hrow
  exact ⟨e.1, List.fst_mem_of_mem_zipIdx he, (Draft.build_eq_ok.1 hrow).2.1⟩

/-- An aggregate counts the rows of each group. -/
theorem Statistic.grounded_runGroups {d : DataSet} (h : d.Grounded aliases totalled)
    (s : Statistic) {keys : List Component} (hkeys : keys = [] → totalled d) (target : Schema) :
    (s.runGroups keys target d).Grounded aliases totalled := by
  intro r hr
  obtain ⟨rows, hrows, hr⟩ := RowStream.exists_of_mem_ofResult hr
  obtain ⟨groups, hgroups, hrows⟩ := bind_eq_ok.1 hrows
  obtain ⟨g, hg, hrow⟩ := exists_of_mem_mapM hrows hr
  rw [(Draft.build_eq_ok.1 hrow).2.1]
  refine grounded_contributions (fun own hown => h own (DataSet.mem_of_groups hgroups hg hown))
    fun hnone => ?_
  obtain ⟨hall, hrows⟩ := DataSet.eq_nil_of_groups hgroups hg hnone
  exact ⟨d, hkeys hall, hrows⟩

/-- Every operation makes rows of the rows that it is given. -/
theorem DataSet.invariant_grounded : Invariant (Grounded aliases totalled) totalled where
  membership h hm := by
    obtain ⟨target, -, hm⟩ := bind_eq_ok.1 hm
    obtain ⟨member, -, hm⟩ := bind_eq_ok.1 hm
    rw [← Except.ok.inj hm]
    exact h.mapRows _ fun _ _ hr => (Draft.build_eq_ok.1 hr).2.1
  filter p h r hr := h r ((RowStream.filterFrom_sublist p _ _).subset hr)
  keep _ h _ := h.mapRows _ fun _ _ hr => (Draft.build_eq_ok.1 hr).2.1
  drop _ h _ := h.mapRows _ fun _ _ hr => (Draft.build_eq_ok.1 hr).2.1
  mapMeasures label _ h _ := by
    refine h.mapRows label fun r r' hr => ?_
    obtain ⟨entries, -, hr⟩ := bind_eq_ok.1 hr
    exact (Draft.build_eq_ok.1 hr).2.1
  compute label _ h _ _ := by
    refine h.mapRows label fun r r' hr => ?_
    obtain ⟨v, -, hr⟩ := bind_eq_ok.1 hr
    exact (Draft.build_eq_ok.1 hr).2.1
  shift direction _ _ _ h _ := Shift.grounded_run h direction _ _ _ _
  aggregate s h hkeys _ _ := Statistic.grounded_runGroups h s hkeys _
  analytic r _ h _ _ := Reducer.grounded_runWindow h r _ _ _

/-! ## Datasets over named ones -/

mutual

/-- The values over datasets of these names: scalars, the named datasets, and what expressions
amount to in scopes over them. -/
inductive Value.From (aliases : Set String) (totalled : DataSet → Prop) : Value → Prop where
  | scalar (x : Scalar) : Value.From aliases totalled (.scalar x)
  | named {name : String} {schema : Schema} {rows : List (List Scalar)} {d : DataSet} :
      name ∈ aliases → DataSet.named name schema rows = .ok d →
        Value.From aliases totalled (.dataset d)
  | eval {e : Expr} {scope : Scope} {v : Value} :
      Scope.From aliases totalled scope → (∀ t, e.Totals scope t → totalled t) →
        e.eval scope = .ok v → Value.From aliases totalled v

/-- The scopes over datasets of these names: such values are bound, and the rows and datasets around
come from such values. -/
inductive Scope.From (aliases : Set String) (totalled : DataSet → Prop) : Scope → Prop where
  | engine {values : Bindings Value} {workspace : Workspace} :
      (∀ v ∈ values.values, Value.From aliases totalled v) →
        Scope.From aliases totalled (.engine values workspace)
  | compile (shapes : Bindings Shape) (workspace : Workspace) :
      Scope.From aliases totalled (.compile shapes workspace)
  | row {d : DataSet} {r : Row} {parent : Scope} :
      Value.From aliases totalled (.dataset d) → .ok r ∈ d.stream.items →
        Scope.From aliases totalled parent → Scope.From aliases totalled (.ofRow r parent)
  | this {d : DataSet} {parent : Scope} :
      Value.From aliases totalled (.dataset d) → Scope.From aliases totalled parent →
        Scope.From aliases totalled (.ofDataSet d parent)

end

theorem Scope.From.holds {scope : Scope} (h : scope.From aliases totalled) :
    scope.Holds (DataSet.Grounded aliases totalled) := by
  refine @Scope.From.rec aliases totalled
    (fun v _ => v.Holds (DataSet.Grounded aliases totalled))
    (fun s _ => s.Holds (DataSet.Grounded aliases totalled))
    ?scalar ?named ?eval ?engine ?compile ?row ?this scope h
  case scalar => exact fun _ => trivial
  case named => exact fun hname hd => DataSet.grounded_named hname hd
  case eval =>
    intro e scope v _ htotals hv hscope
    exact DataSet.invariant_grounded.eval_totalled hscope htotals hv
  case engine => exact fun _ hvalues => .engine hvalues
  case compile => exact fun shapes workspace => .compile shapes workspace
  case row =>
    intro d r parent _ hr _ hd hparent
    refine .row (fun r' hr' => ?_) hparent
    rw [DataSet.stream_ofRows] at hr'
    rw [List.mem_singleton.1 hr']
    exact hd r (RowStream.mem_items.1 hr)
  case this => exact fun _ _ hd hparent => .this hd hparent

/-- Whatever an expression over datasets of the given names amounts to, wherever its clauses are
evaluated and however its rules are nested, the lineages of its rows are grounded in these names:
following the sources of transformations and the members of groups never comes upon an unknown
lineage, and always comes to an end, which is one of the names or a group that counts no rows.
Such a group comes from an aggregate without keys of a dataset without rows: where every dataset
that is totalled has rows, the end is one of the names. -/
theorem grounded_rows {scope : Scope} (hscope : scope.From aliases totalled) {e : Expr}
    (htotals : ∀ t, e.Totals scope t → totalled t) {d : DataSet}
    (hd : e.eval scope = .ok (.dataset d)) {r : Row} (hr : .ok r ∈ d.stream.items) :
    r.lineage.Grounded aliases totalled ∧
      ∀ m, r.lineage.Leads m → m ≠ .unknown ∧
        (m.parts = [] →
          (∃ name ∈ aliases, m = .known name) ∨
            (∃ g : Lineage.Group, m = .group g ∧ g.total = 0) ∧
              ∃ t, totalled t ∧ t.collect = .ok []) ∧
        ∃ last, m.Leads last ∧ last.parts = [] := by
  have hheld : (Value.dataset d).Holds (DataSet.Grounded aliases totalled) :=
    DataSet.invariant_grounded.eval_totalled hscope.holds htotals hd
  have hgrounded : r.lineage.Grounded aliases totalled := hheld r (RowStream.mem_items.1 hr)
  refine ⟨hgrounded, fun m hm => ?_⟩
  have hm' := hgrounded.leads hm
  exact ⟨hm'.ne_unknown, hm'.of_parts_eq_nil, m.exists_end⟩

/-- How many rows have each first identifier, negated. -/
def negatedCounts : Expr := .unary .neg countByKey

/-- A row for a first identifier, with the negated number of rows that have it. -/
def negatedCount (k : String) (n : Nat) : Row :=
  ⟨keyed, [.string k, .integer (-Int64.ofNat n)],
    .node negatedCounts.text [.group [(.known "ds", n)]]⟩

theorem drainsTo_negatedCounts :
    negatedCounts.DrainsTo keyedTwiceScope [negatedCount "a" 2, negatedCount "b" 1] := by
  obtain ⟨counts, hcounts, hrows⟩ := drainsTo_countByKey
  cases hcounts
  exact ⟨_, rfl, DataSet.collect_mapRows_eq_ok.2 ⟨_, hrows, .cons rfl (.cons rfl .nil)⟩⟩

/-- Nothing is totalled without keys. -/
theorem not_totals_negatedCounts (t : DataSet) : ¬ negatedCounts.Totals keyedTwiceScope t := by
  intro ht
  unfold negatedCounts Expr.Totals at ht
  obtain - | ⟨hx, ht⟩ := ht
  rw [List.mem_singleton.1 hx] at ht
  unfold countByKey at ht
  obtain - | ⟨hx, ht⟩ := ht
  rw [List.mem_singleton.1 hx] at ht
  cases ht with
  | source hx _ => nomatch hx
  | rule hentry _ => nomatch hentry

/-- The transformation leads to the group, and that to the dataset. -/
theorem grounded_rows_negatedCounts :
    keyedTwiceScope.From {"ds"} (fun _ => False) ∧
      (∀ t, negatedCounts.Totals keyedTwiceScope t → False) ∧
      ∃ d, negatedCounts.eval keyedTwiceScope = .ok (.dataset d) ∧
        .ok (negatedCount "a" 2) ∈ d.stream.items ∧
        (negatedCount "a" 2).lineage.Grounded {"ds"} (fun _ => False) ∧
        (negatedCount "a" 2).lineage.Leads (.known "ds") ∧ (Lineage.known "ds").parts = [] := by
  have hscope : keyedTwiceScope.From {"ds"} (fun _ => False) := by
    refine .engine fun v hv => ?_
    rw [List.mem_singleton.1 hv]
    exact .named rfl named_keyedTwiceDataSet
  obtain ⟨d, hd, hrows⟩ := drainsTo_negatedCounts
  have hr : .ok (negatedCount "a" 2) ∈ d.stream.items := by
    rw [RowStream.mem_items, (RowStream.collect_eq_ok.1 hrows).1]
    exact List.mem_cons_self
  have hgrounded := (grounded_rows hscope not_totals_negatedCounts hd hr).1
  refine ⟨hscope, not_totals_negatedCounts, d, hd, hr, hgrounded, ?_, rfl⟩
  exact .head List.mem_cons_self (.head List.mem_cons_self .refl)

end DataCube
