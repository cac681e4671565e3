import DataCube.Proofs.Invariants

/-!
# The rows of a dataset

Every row that a dataset yields is a row of the schema of the dataset.  The two schemas are computed
in different places, the one of the dataset when an expression is evaluated and the one of a row
when the stream is pulled, so this is an invariant of evaluation: it is carried through every
operation that makes rows.

* `DataSet.WellFormed`: the rows are rows of the schema, with values that go with the components.
* `DataSet.invariant_wellFormed`: every operation makes such rows.
* `wellFormed_eval`: an expression has a well-formed value in a scope of well-formed values.
* `Value.Reachable`: what named datasets and expressions over them amount to.
* `Row.Holds`: a place is within a row, and holds the component that is asked for.
* `reachable_rows`: all rows of all datasets, with all places that schemas and windows give.
-/

namespace DataCube

/-! ## Streams -/

namespace RowStream

variable {r : Row}

/-- The rows of a stream are what it yields, but for an error. -/
theorem mem_items {s : RowStream} : .ok r ∈ s.items ↔ r ∈ s.rows := by
  obtain ⟨rows, fault⟩ := s
  unfold items
  rw [List.mem_append]
  constructor
  · rintro (h | h)
    · obtain ⟨r', hr', heq⟩ := List.mem_map.1 h
      cases heq
      exact hr'
    · cases fault with
      | none => nomatch h
      | some e =>
        rw [Option.map_some, Option.toList_some, List.mem_singleton] at h
        nomatch h
  · exact fun h => Or.inl (List.mem_map_of_mem h)

/-- The error of a stream is the one it yields. -/
theorem error_mem_items {s : RowStream} {e : EvalError} :
    .error e ∈ s.items ↔ s.fault = some e := by
  obtain ⟨rows, fault⟩ := s
  unfold items
  rw [List.mem_append, Option.mem_toList, Option.map_eq_some_iff]
  constructor
  · rintro (h | ⟨e', he', heq⟩)
    · obtain ⟨r, -, heq⟩ := List.mem_map.1 h
      nomatch heq
    · cases heq
      exact he'
  · exact fun h => Or.inr ⟨e, h, rfl⟩

/-- What mapping yields are the images of the rows up to the first one that fails.  If there is
none, the error of the stream stays. -/
theorem forall₂_mapFrom (f : Row → Except EvalError Row) (fault : Option EvalError)
    (rows : List Row) :
    List.Forall₂ (fun source image => f source = .ok image)
        (rows.take (mapFrom f fault rows).rows.length) (mapFrom f fault rows).rows ∧
      (rows.length = (mapFrom f fault rows).rows.length ∧ (mapFrom f fault rows).fault = fault ∨
        ∃ source e, rows[(mapFrom f fault rows).rows.length]? = some source ∧
          f source = .error e ∧ (mapFrom f fault rows).fault = some e) := by
  induction rows with
  | nil => exact ⟨.nil, Or.inl ⟨rfl, rfl⟩⟩
  | cons source rows ih =>
    unfold mapFrom
    split
    · rename_i image himage
      obtain ⟨himages, hend⟩ := ih
      exact ⟨.cons himage himages, hend.imp_left fun h => ⟨congrArg (· + 1) h.1, h.2⟩⟩
    · rename_i e he
      exact ⟨.nil, Or.inr ⟨source, e, rfl, he, rfl⟩⟩

theorem exists_of_mem_mapFrom {f : Row → Except EvalError Row} {fault : Option EvalError}
    {rows : List Row} (h : r ∈ (mapFrom f fault rows).rows) :
    ∃ source ∈ rows, f source = .ok r := by
  obtain ⟨himages, -⟩ := forall₂_mapFrom f fault rows
  obtain ⟨source, hsource, himage⟩ := exists_of_forall₂ himages.flip h
  exact ⟨source, List.mem_of_mem_take hsource, himage⟩

/-- Filtering yields some of the rows, in their order. -/
theorem filterFrom_sublist (p : Row → Except EvalError Bool) (fault : Option EvalError)
    (rows : List Row) : (filterFrom p fault rows).rows.Sublist rows := by
  induction rows with
  | nil => exact .slnil
  | cons source rows ih =>
    unfold filterFrom
    split
    · exact ih.cons_cons source
    · exact ih.cons source
    · exact List.nil_sublist _

/-- A map that is defined on every row maps them all, and the error of the stream stays. -/
theorem mapRows_eq {f : Row → Except EvalError Row} {s : RowStream} {images : List Row}
    (h : List.Forall₂ (fun source image => f source = .ok image) s.rows images) :
    s.mapRows f = ⟨images, s.fault⟩ := by
  obtain ⟨rows, fault⟩ := s
  change List.Forall₂ _ rows images at h
  show mapFrom f fault rows = ⟨images, fault⟩
  induction h with
  | nil => rfl
  | cons himage _ ih =>
    rw [mapFrom, himage, ih]
    rfl

/-- A map that ends without an error has mapped every row. -/
theorem forall₂_mapRows {f : Row → Except EvalError Row} {s : RowStream}
    (h : (s.mapRows f).fault = none) :
    s.fault = none ∧
      List.Forall₂ (fun source image => f source = .ok image) s.rows (s.mapRows f).rows := by
  obtain ⟨rows, fault⟩ := s
  change (mapFrom f fault rows).fault = none at h
  show fault = none ∧ List.Forall₂ _ rows (mapFrom f fault rows).rows
  induction rows with
  | nil => exact ⟨h, .nil⟩
  | cons source rows ih =>
    unfold mapFrom at h ⊢
    split at h
    · rename_i image himage
      obtain ⟨hfault, himages⟩ := ih h
      exact ⟨hfault, .cons himage himages⟩
    · nomatch h

/-- A test that decides every row leaves out the others, and the error of the stream stays. -/
theorem filterRows_eq {p : Row → Except EvalError Bool} {q : Row → Bool} {s : RowStream}
    (h : ∀ source ∈ s.rows, p source = .ok (q source)) :
    s.filterRows p = ⟨s.rows.filter q, s.fault⟩ := by
  obtain ⟨rows, fault⟩ := s
  show filterFrom p fault rows = ⟨rows.filter q, fault⟩
  induction rows with
  | nil => rfl
  | cons source rows ih =>
    obtain ⟨hsource, hrows⟩ := List.forall_mem_cons.1 h
    rw [filterFrom, hsource, ih hrows, List.filter_cons]
    cases q source <;> rfl

theorem exists_of_mem_ofResult {x : Except EvalError (List Row)} (h : r ∈ (ofResult x).rows) :
    ∃ rows, x = .ok rows ∧ r ∈ rows := by
  cases x with
  | ok rows => exact ⟨rows, rfl, h⟩
  | error e => nomatch h

end RowStream

/-! ## Operations -/

/-- Every row is a row of the schema, with a value for every component, of the domain of the
component unless that is unknown. -/
def DataSet.WellFormed (d : DataSet) : Prop :=
  ∀ r ∈ d.stream.rows, r.schema = d.schema ∧ r.WellFormed

/-- The rows of a dataset, if it is one, are well formed. -/
def Value.WellFormed : Value → Prop
  | .scalar _ => True
  | .dataset d => d.WellFormed

namespace DataSet

theorem wellFormed_named {name : String} {schema : Schema} {rows : List (List Scalar)} {d : DataSet}
    (h : named name schema rows = .ok d) : d.WellFormed := by
  obtain ⟨built, hbuilt, h⟩ := bind_eq_ok.1 h
  rw [← Except.ok.inj h]
  intro r hr
  obtain ⟨values, -, hr⟩ := exists_of_mem_mapM hbuilt hr
  unfold namedRow at hr
  split at hr
  · exact Draft.wellFormed_build hr
  · nomatch hr

/-- Rows of a schema make up a dataset of it. -/
theorem wellFormed_mapRows {d : DataSet} {schema : Schema} {f : Row → Except EvalError Row}
    (hf : ∀ r r', f r = .ok r' → r'.schema = schema ∧ r'.WellFormed) :
    (d.mapRows schema f).WellFormed := by
  intro r hr
  obtain ⟨source, -, h⟩ := RowStream.exists_of_mem_mapFrom hr
  exact hf source r h

theorem wellFormed_filter {d : DataSet} (h : d.WellFormed) (p : Row → Except EvalError Bool) :
    (d.filter p).WellFormed :=
  fun r hr => h r ((RowStream.filterFrom_sublist p _ _).subset hr)

theorem wellFormed_membership {d m : DataSet} {name label : String}
    (h : d.membership name label = .ok m) : m.WellFormed := by
  obtain ⟨target, -, h⟩ := bind_eq_ok.1 h
  obtain ⟨member, -, h⟩ := bind_eq_ok.1 h
  rw [← Except.ok.inj h]
  exact wellFormed_mapRows fun _ _ hr => Draft.wellFormed_build hr

theorem wellFormed_project (d : DataSet) (target : Schema) (label : String) :
    (d.project target label).WellFormed :=
  wellFormed_mapRows fun _ _ hr => Draft.wellFormed_build hr

theorem wellFormed_mapMeasures (d : DataSet) (target : Schema) (label : String)
    (f : Scalar → Except EvalError Scalar) : (d.mapMeasures target label f).WellFormed := by
  refine wellFormed_mapRows fun r r' hr => ?_
  obtain ⟨entries, -, hr⟩ := bind_eq_ok.1 hr
  exact Draft.wellFormed_build hr

theorem wellFormed_computed (d : DataSet) (computed : Component) (target : Schema) (label : String)
    (valueOf : Row → Except EvalError Scalar) :
    (d.mapRows target (computedRow computed target label valueOf)).WellFormed := by
  refine wellFormed_mapRows fun r r' hr => ?_
  obtain ⟨v, -, hr⟩ := bind_eq_ok.1 hr
  exact Draft.wellFormed_build hr

/-- Rows that are computed as a whole make up a dataset too. -/
theorem wellFormed_ofResult {schema : Schema} {x : Except EvalError (List Row)}
    (hx : ∀ rows, x = .ok rows → ∀ r ∈ rows, r.schema = schema ∧ r.WellFormed) :
    (derived schema fun _ => .ofResult x).WellFormed := by
  intro r hr
  obtain ⟨rows, hrows, hr⟩ := RowStream.exists_of_mem_ofResult hr
  exact hx rows hrows r hr

end DataSet

/-- Rows that are made partition by partition. -/
theorem Window.exists_of_mem_perPartition {groups : List Group}
    {process : List Row → Except EvalError (List Row)} {rows : List Row} {r : Row}
    (h : perPartition groups process = .ok rows) (hr : r ∈ rows) :
    ∃ g ∈ groups, ∃ made, process g.rows = .ok made ∧ r ∈ made := by
  obtain ⟨parts, hparts, rfl⟩ := map_eq_ok.1 h
  obtain ⟨made, hmade, hr⟩ := List.mem_flatten.1 hr
  obtain ⟨g, hg, hprocess⟩ := exists_of_mem_mapM hparts hmade
  exact ⟨g, hg, made, hprocess, hr⟩

theorem Shift.wellFormed_run (direction : Shift) (offset : Nat) (default : Option Scalar)
    (w : Window) (label : String) (d : DataSet) :
    (direction.run offset default w label d).WellFormed := by
  refine DataSet.wellFormed_ofResult fun rows hrows r hr => ?_
  obtain ⟨groups, -, hrows⟩ := bind_eq_ok.1 hrows
  obtain ⟨g, -, made, hmade, hr⟩ := Window.exists_of_mem_perPartition hrows hr
  obtain ⟨e, -, hrow⟩ := exists_of_mem_mapM hmade hr
  obtain ⟨measures, -, hrow⟩ := bind_eq_ok.1 hrow
  exact Draft.wellFormed_build hrow

theorem Reducer.wellFormed_runWindow (r : Reducer) (w : Window) (target : Schema) (label : String)
    (d : DataSet) : (r.runWindow w target label d).WellFormed := by
  refine DataSet.wellFormed_ofResult fun rows hrows r hr => ?_
  obtain ⟨groups, -, hrows⟩ := bind_eq_ok.1 hrows
  obtain ⟨g, -, made, hmade, hr⟩ := Window.exists_of_mem_perPartition hrows hr
  obtain ⟨e, -, hrow⟩ := exists_of_mem_mapM hmade hr
  obtain ⟨measures, -, hrow⟩ := bind_eq_ok.1 hrow
  exact Draft.wellFormed_build hrow

theorem Statistic.wellFormed_runGroups (s : Statistic) (keys : List Component) (target : Schema)
    (d : DataSet) : (s.runGroups keys target d).WellFormed := by
  refine DataSet.wellFormed_ofResult fun rows hrows r hr => ?_
  obtain ⟨groups, -, hrows⟩ := bind_eq_ok.1 hrows
  obtain ⟨g, -, hrow⟩ := exists_of_mem_mapM hrows hr
  exact Draft.wellFormed_build hrow

/-- Whatever the operations do on the way, they make rows of the schema that they are given. -/
theorem DataSet.invariant_wellFormed : Invariant WellFormed where
  membership _ hm := wellFormed_membership hm
  filter p h := wellFormed_filter h p
  keep _ _ _ := wellFormed_project _ _ _
  drop _ _ _ := wellFormed_project _ _ _
  mapMeasures _ _ _ _ := wellFormed_mapMeasures _ _ _ _
  compute _ _ _ _ _ := wellFormed_computed _ _ _ _ _
  shift direction _ _ _ _ _ := direction.wellFormed_run _ _ _ _ _
  aggregate s _ _ _ _ := s.wellFormed_runGroups _ _ _
  analytic r _ _ _ _ := r.wellFormed_runWindow _ _ _ _

/-! ## Expressions -/

/-- A scope all of whose values are well formed. -/
inductive Scope.WellFormed : Scope → Prop where
  | engine {values : Bindings Value} {workspace : Workspace} :
      (∀ v ∈ values.values, v.WellFormed) → WellFormed (.engine values workspace)
  | compile (shapes : Bindings Shape) (workspace : Workspace) :
      WellFormed (.compile shapes workspace)
  | row {r : Row} {parent : Scope} :
      r.WellFormed → WellFormed parent → WellFormed (.ofRow r parent)
  | this {d : DataSet} {parent : Scope} :
      d.WellFormed → WellFormed parent → WellFormed (.ofDataSet d parent)

theorem Value.holds_wellFormed {v : Value} : v.Holds DataSet.WellFormed ↔ v.WellFormed := by
  cases v <;> rfl

theorem Scope.WellFormed.holds {a : Scope} (h : a.WellFormed) : a.Holds DataSet.WellFormed := by
  induction h with
  | engine hvalues => exact .engine fun v hv => Value.holds_wellFormed.2 (hvalues v hv)
  | compile shapes workspace => exact .compile shapes workspace
  | row hr _ ih =>
    refine .row (fun row hrow => ?_) ih
    rw [DataSet.stream_ofRows] at hrow
    rw [List.mem_singleton.1 hrow]
    exact ⟨rfl, hr⟩
  | this hd _ ih => exact .this hd ih

/-- The rows of an expression are well formed, whatever its clauses do on the way. -/
theorem wellFormed_eval {e : Expr} {scope : Scope} {v : Value} (h : scope.WellFormed)
    (hv : e.eval scope = .ok v) : v.WellFormed :=
  Value.holds_wellFormed.1 (DataSet.invariant_wellFormed.eval h.holds hv)

/-! ## Reachable datasets -/

/-- The values that there are: scalars, named datasets, and what expressions over values amount to.
-/
inductive Value.Reachable : Value → Prop where
  | scalar (x : Scalar) : Reachable (.scalar x)
  | named {name : String} {schema : Schema} {rows : List (List Scalar)} {d : DataSet} :
      DataSet.named name schema rows = .ok d → Reachable (.dataset d)
  | eval {e : Expr} {values : Bindings Value} {workspace : Workspace} {v : Value} :
      (∀ x ∈ values.values, Reachable x) → e.eval (.engine values workspace) = .ok v → Reachable v

theorem Value.Reachable.wellFormed {v : Value} (h : v.Reachable) : v.WellFormed := by
  induction h with
  | scalar x => trivial
  | named h => exact DataSet.wellFormed_named h
  | eval _ hv ih => exact wellFormed_eval (.engine ih) hv

/-! ## Places -/

/-- The place is within the row, and holds the component. -/
structure Row.Holds (r : Row) (i : Nat) (c : Component) : Prop where
  component : r.schema.components[i]? = some c
  value : r.values[i]? = some (r.valueAt i)
  byName : r.get? c.name = some (r.valueAt i)
  domain : c.domain.Describes (r.valueAt i).domain

/-- The place under which a schema has a name. -/
theorem Row.WellFormed.holds {r : Row} (h : r.WellFormed) {c : Component} {i : Nat}
    (hc : r.schema.components[i]? = some c) (hi : r.schema.positionOf? c.name = some i) :
    r.Holds i c := by
  obtain ⟨v, hv, -, hdomain⟩ := h.getElem? hc
  have hat : r.valueAt i = v := by rw [Row.valueAt, hv, Option.getD_some]
  refine ⟨hc, ?_, ?_, ?_⟩
  · rw [hat, hv]
  · rw [Row.get?, hi, hat]
    exact hv
  · rw [hat]
    exact hdomain

theorem Row.WellFormed.holds_positionOf? {r : Row} (h : r.WellFormed) {name : String} {i : Nat}
    (hi : r.schema.positionOf? name = some i) : ∃ c, c.name = name ∧ r.Holds i c := by
  obtain ⟨c, -, hc, rfl⟩ := Schema.getElem?_of_positionOf? hi
  exact ⟨c, rfl, h.holds hc hi⟩

namespace Schema

theorem mem_of_require {s : Schema} {name : String} {c : Component} (h : s.require name = .ok c) :
    c ∈ s.components := by
  unfold require at h
  split at h
  · rename_i c' hc'
    cases h
    exact mem_of_component? hc'
  · nomatch h

theorem mem_of_requireIdentifier {s : Schema} {use : ComponentUse} {name : String} {c : Component}
    (h : s.requireIdentifier use name = .ok c) : c ∈ s.identifiers := by
  obtain ⟨c', hc', h⟩ := bind_eq_ok.1 h
  split at h
  · rename_i hrole
    cases h
    exact List.mem_filter.2 ⟨mem_of_require hc', decide_eq_true hrole⟩
  · nomatch h

theorem mem_of_mem_identifiers {s : Schema} {c : Component} (h : c ∈ s.identifiers) :
    c ∈ s.components :=
  List.mem_of_mem_filter h

end Schema

namespace Window

variable {schema : Schema} {spec : WindowSpec} {defaults : WindowDefaults} {w : Window}

theorem mem_of_sortKeys? {items : List OrderItem} {given : List (Component × SortDirection)}
    (h : sortKeys? schema items = .ok given) {e : Component × SortDirection} (he : e ∈ given) :
    e.1 ∈ schema.components := by
  obtain ⟨item, -, hitem⟩ := exists_of_mem_mapM h he
  obtain ⟨c, hc, rfl⟩ := map_eq_ok.1 hitem
  exact Schema.mem_of_require hc

/-- A window partitions by components of the schema, and sorts by the places of its sort keys,
leaving out none. -/
theorem resolve?_eq_ok (h : resolve? schema spec defaults = .ok w) :
    (∀ k ∈ w.partition, k ∈ schema.components) ∧
      ∃ given, sortKeys? schema spec.orderBy = .ok given ∧
        List.Forall₂ (fun e p => schema.position? e.1 = some p.1 ∧ p.2 = e.2)
          (defaultOrdering schema defaults given) w.ordering := by
  obtain ⟨given, hgiven, h⟩ := bind_eq_ok.1 h
  obtain ⟨partition, hpartition, h⟩ := bind_eq_ok.1 h
  rw [← Except.ok.inj h]
  refine ⟨fun k hk => ?_, given, hgiven, forall₂_filterMap fun e he => ?_⟩
  · simp only [defaultPartition] at hk
    split at hk
    · exact Schema.mem_of_mem_identifiers (List.mem_of_mem_filter hk)
    · obtain ⟨name, -, hname⟩ := exists_of_mem_mapM hpartition hk
      obtain ⟨c, hc, hname⟩ := bind_eq_ok.1 hname
      split at hname
      · nomatch hname
      · cases hname
        exact Schema.mem_of_mem_identifiers (Schema.mem_of_requireIdentifier hc)
  · have hmem : e.1 ∈ schema.components := by
      unfold defaultOrdering at he
      split at he
      · obtain ⟨c, hc, rfl⟩ := List.mem_map.1 he
        exact Schema.mem_of_mem_identifiers hc
      · exact mem_of_sortKeys? hgiven he
    obtain ⟨i, hi, -⟩ := Schema.position?_of_mem hmem
    exact ⟨(i, e.2), by rw [hi]; rfl, hi, rfl⟩

end Window

/-- Every row that a dataset yields, however it came about, is a row of its schema with one value
for every component, of the domain of the component unless that is unknown.  So wherever the schema
has a name, a grouping its keys and a window its sort keys, the row holds the component meant. -/
theorem reachable_rows {d : DataSet} (hd : (Value.dataset d).Reachable) {r : Row}
    (hr : .ok r ∈ d.stream.items) :
    r.schema = d.schema ∧ r.values.length = d.schema.size ∧
      (∀ (i : Nat) (c : Component) (v : Scalar), d.schema.components[i]? = some c →
        r.values[i]? = some v → v.domain = c.domain ∨ c.domain = .unknown) ∧
      (∀ name i, d.schema.positionOf? name = some i → ∃ c, c.name = name ∧ r.Holds i c) ∧
      (∀ keys positions, d.keyPositions keys = .ok positions →
        List.Forall₂ (fun k i => ∃ c, c.name = k.name ∧ r.Holds i c) keys positions) ∧
      (∀ spec defaults w, Window.resolve? d.schema spec defaults = .ok w →
        (∀ k ∈ w.partition, k ∈ d.schema.components) ∧
          ∃ given, Window.sortKeys? d.schema spec.orderBy = .ok given ∧
            List.Forall₂ (fun e p => r.Holds p.1 e.1 ∧ p.2 = e.2)
              (Window.defaultOrdering d.schema defaults given) w.ordering) := by
  obtain ⟨hschema, hfits⟩ := hd.wellFormed r (RowStream.mem_items.1 hr)
  rw [← hschema]
  refine ⟨rfl, hfits.length, ?_, ?_, ?_, ?_⟩
  · intro i c v hc hv
    obtain ⟨v', hv', -, hdomain⟩ := hfits.getElem? hc
    rw [hv] at hv'
    cases hv'
    exact hdomain.imp_left Eq.symm
  · exact fun name i hi => hfits.holds_positionOf? hi
  · intro keys positions hpositions
    refine (mapM_eq_ok.1 hpositions).imp fun k i hk => ?_
    rw [← hschema] at hk
    split at hk
    · rename_i j hj
      cases hk
      exact hfits.holds_positionOf? hj
    · nomatch hk
  · intro spec defaults w hw
    obtain ⟨hpartition, given, hgiven, hordering⟩ := Window.resolve?_eq_ok hw
    refine ⟨hpartition, given, hgiven, hordering.imp fun e p hp => ⟨?_, hp.2⟩⟩
    obtain ⟨hposition, hget⟩ := Option.filter_eq_some_iff.1 hp.1
    exact hfits.holds (of_decide_eq_true hget) hposition

/-- A key and a measure. -/
def keyed : Schema := ⟨[⟨"k", .identifier, .string⟩, ⟨"m", .measure, .integer⟩], by decide⟩

/-- Two rows, the second without a measured value. -/
def keyedDataSet : DataSet :=
  ⟨keyed, some "ds", .pure (.ofRows [⟨keyed, [.string "a", .integer 1], .known "ds"⟩,
    ⟨keyed, [.string "b", .null .integer], .known "ds"⟩])⟩

theorem named_keyedDataSet :
    DataSet.named "ds" keyed [[.string "a", .integer 1], [.string "b", .null .null]] =
      .ok keyedDataSet := rfl

/-- The scope in which only that dataset is bound. -/
def keyedScope : Scope := .engine ⟨[("ds", .dataset keyedDataSet)]⟩ .empty

/-- The dataset with its measure negated. -/
def negatedKeyed : DataSet := keyedDataSet.mapMeasures keyed "-ds" UnaryOp.neg.apply

theorem reachable_rows_negatedKeyed :
    (Expr.unary .neg (.var "ds")).eval keyedScope = .ok (.dataset negatedKeyed) ∧
      ∃ r, .ok r ∈ negatedKeyed.stream.items ∧ r.values = [.string "b", .null .integer] ∧
        r.schema = negatedKeyed.schema ∧ r.Holds 1 ⟨"m", .measure, .integer⟩ := by
  have heval : (Expr.unary .neg (.var "ds")).eval keyedScope = .ok (.dataset negatedKeyed) := rfl
  have hreachable : (Value.dataset negatedKeyed).Reachable := by
    refine .eval (fun v hv => ?_) heval
    rw [List.mem_singleton.1 hv]
    exact .named named_keyedDataSet
  refine ⟨heval, _, List.mem_cons_of_mem _ List.mem_cons_self, rfl, ?_⟩
  obtain ⟨hschema, -, -, hplaces, -⟩ :=
    reachable_rows hreachable (List.mem_cons_of_mem _ List.mem_cons_self)
  obtain ⟨c, -, hholds⟩ := hplaces "m" 1 rfl
  cases Option.some.inj hholds.component
  exact ⟨hschema, hholds⟩

end DataCube
