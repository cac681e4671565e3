import DataCube.Proofs.DefinedMeasures
import DataCube.Proofs.Visibility

/-!
# Computed columns

A row with a computed column has the value that was computed from the given row, as the component
takes it, and in every other column what the given row has.  The value is computed from the row as
it was, so where the new component replaces one, its expression still sees what this one held.

* `Draft.build_eq_of_others`: a draft of which one value alone is in question.
* `DataSet.computedRow_eq`: the row is made just if there is a value that the component takes.
* `Schema.exists_computed`: the component that the name of a column refers to afterwards.
* `Row.Computed`: the row that is made, against the row it is made of.
* `computed_column`: the rows of a dataset with a computed column.
-/

namespace DataCube

/-! ## One row -/

/-- Where all components but one have their values, this one decides whether there is a row. -/
theorem Draft.build_eq_of_others {d : Draft} {s : Schema} {new : Component} {f : Component → Scalar}
    (lineage : Lineage) (hnew : new ∈ s.components)
    (hothers : ∀ c ∈ s.components, c ≠ new → d.valueFor s c = .ok (f c)) :
    d.build s lineage = (d.valueFor s new).map fun w =>
      ⟨s, s.components.map fun c => if c = new then w else f c, lineage⟩ := by
  cases hw : d.valueFor s new with
  | ok w =>
    refine build_eq_ok.2 ⟨rfl, rfl, ?_⟩
    rw [List.forall₂_map_right_iff, List.forall₂_same]
    intro c hc
    split
    · rename_i hc'
      rw [hc', hw]
    · exact hothers c hc ‹_›
  | error e =>
    unfold build
    cases hall : s.components.mapM (d.valueFor s) with
    | ok values =>
      obtain ⟨w, -, hw'⟩ := exists_of_forall₂ (mapM_eq_ok.1 hall) hnew
      rw [hw] at hw'
      nomatch hw'
    | error e' =>
      -- no other component has an error
      obtain ⟨before, c, after, hsplit, -, he'⟩ := mapM_eq_error.1 hall
      have hc : c ∈ s.components := by
        rw [hsplit]
        exact List.mem_append_right _ List.mem_cons_self
      by_cases hc' : c = new
      · rw [hc', hw] at he'
        cases he'
        rfl
      · rw [hothers c hc hc'] at he'
        nomatch he'

/-- The row is the given one with the value in its place, and nothing can fail but the value. -/
theorem DataSet.computedRow_eq {r : Row} (hr : r.WellFormed) (new : Component) (label : String)
    (valueOf : Row → Except EvalError Scalar) :
    computedRow new (r.schema.insert new) label valueOf r =
      (valueOf r >>= new.store).map fun w =>
        ⟨r.schema.insert new,
          (r.schema.insert new).components.map fun c => if c = new then w else r.valueOf c,
          derivedLineage label r⟩ := by
  unfold computedRow
  cases hv : valueOf r with
  | error e => rfl
  | ok v =>
    have hnew : ((Draft.empty.setAll r.entries).set new.name v).valueFor (r.schema.insert new) new =
        new.store v := by
      rw [Draft.valueFor, Draft.get?_set, if_pos rfl]
    rw [ok_bind, ok_bind, ← hnew]
    refine Draft.build_eq_of_others _ (Schema.mem_insert_self r.schema new) fun c hc hne => ?_
    obtain ⟨hmem, hname⟩ := (Schema.mem_insert hc).resolve_left hne
    have hget : (Draft.empty.setAll r.entries).get? c.name = some (r.valueOf c) := by
      rw [hr.entries_eq]
      exact Draft.get?_setAll_map (fun _ hk => hk) hmem (Or.inl ⟨hmem, rfl⟩)
    rw [Draft.valueFor, Draft.get?_set, if_neg hname.symm, hget]
    exact Component.store_of_describes (hr.describes_valueOf hmem)

/-! ## The component -/

/-- A name for a computed column refers to a measure afterwards, which is all that is new, and has
not replaced an identifier. -/
theorem Schema.exists_computed {s s' : Schema} {name : String} {domain : Domain} {new : Component}
    (h : s.withMeasure name domain = .ok s') (hnew : s'.require name = .ok new) :
    s' = s.insert new ∧ s'.component? name = some new ∧ new.role = .measure ∧
      new.domain = domain ∧ s.IdentifiersStay s' := by
  have hfound := require_eq_ok.1 hnew
  obtain ⟨heq, hidentifiers⟩ := computed_eq_ok h hnew
  have hmeasure : new.role = .measure ∧ new.domain = domain := by
    rcases component?_withMeasure h with ⟨stored, -, hstored⟩ | ⟨-, hlost⟩
    · cases hstored.symm.trans hfound
      exact ⟨rfl, rfl⟩
    · nomatch hlost.symm.trans hfound
  refine ⟨heq, hfound, hmeasure.1, hmeasure.2, ?_⟩
  rw [heq]
  refine ((s.updated_insert new).identifiersStay_iff ?_).2 hidentifiers
  rw [hmeasure.1]
  decide

/-! ## The rows -/

/-- The value of a computed column for a row, as its component takes it. -/
def Expr.computedValue (value : Expr) (scope : Scope) (new : Component) (r : Row) :
    Except EvalError Scalar := do
  new.store (← (← value.eval (.ofRow r scope.root)).asComputed)

/-- A row with a computed column, against the row that it was computed from. -/
structure Row.Computed (e value : Expr) (scope : Scope) (name : String) (new : Component)
    (own made : Row) : Prop where
  /-- The value is that for the given row, within whatever scopes over this root. -/
  computed : ∃ v w, (∀ parent : Scope, parent.root = scope.root →
      value.eval (.ofRow own parent) = .ok (.scalar v)) ∧
    v.cast new.domain = .ok w ∧ made.lookup? name = some w
  /-- There a name refers to what the given row has, also if this is replaced. -/
  visible : ∀ other c, own.schema.component? other = some c → isThis other = false →
    ∃ u, own.get? c.name = some u ∧
      ∀ parent, (Expr.var other).eval (.ofRow own parent) = .ok (.scalar u)
  /-- All other components have the values of the given row. -/
  kept : ∀ c ∈ made.schema.components, c ≠ new →
    ∃ u, own.get? c.name = some u ∧ made.get? c.name = some u
  lineage : made.lineage = .node e.text [own.lineage]

variable {e value : Expr} {scope : Scope} {name : String} {new : Component}

/-- A variable in a row is looked up among its components. -/
theorem Expr.eval_var_ofRow {r : Row} {v : Scalar} (hthis : isThis name = false)
    (hc : (r.schema.component? name).isSome = true) (hv : r.lookup? name = some v)
    (parent : Scope) : (Expr.var name).eval (.ofRow r parent) = .ok (.scalar v) := by
  have hentry : (Scope.ofRow r parent).valueEntry name = .ok (.found (.scalar v)) := by
    simp [Scope.valueEntry, Scope.ofRow, Scope.contains, Scope.resolve, hthis, hc, hv]
  simp only [Expr.eval, Expr.evalWith]
  rw [hentry]
  rfl

/-- The value is a scalar, the same within whatever scopes, and is cast. -/
theorem Expr.exists_of_computedValue {r : Row} {w : Scalar}
    (h : value.computedValue scope new r = .ok w) :
    ∃ v, (∀ parent : Scope, parent.root = scope.root →
        value.eval (.ofRow r parent) = .ok (.scalar v)) ∧
      v.cast new.domain = .ok w := by
  obtain ⟨result, hresult, h⟩ := bind_eq_ok.1 h
  obtain ⟨v, hv, hstore⟩ := bind_eq_ok.1 h
  cases result with
  | dataset d => nomatch hv
  | scalar v' =>
    cases hv
    refine ⟨v, fun parent hparent => ?_, Component.cast_of_store hstore⟩
    rw [(eval_ofRow value r (hparent.trans scope.root_root.symm)).2, hresult]

/-- The row of a computed column is there just if the value is. -/
theorem DataSet.computedRow_eq_computedValue {own : Row} (hown : own.WellFormed) (label : String) :
    computedRow new (own.schema.insert new) label
        (fun r => do (← value.evalWith scope.ruleMeaning (.ofRow r scope.root)).asComputed) own =
      (value.computedValue scope new own).map fun w =>
        ⟨own.schema.insert new,
          (own.schema.insert new).components.map fun c => if c = new then w else own.valueOf c,
          derivedLineage label own⟩ := by
  rw [computedRow_eq hown, evalWith_ofRow value own scope.root_root, bind_assoc]
  rfl

theorem Row.computed_of_computedValue {own made : Row} {w : Scalar} (hown : own.WellFormed)
    (hfound : (own.schema.insert new).component? name = some new)
    (hw : value.computedValue scope new own = .ok w)
    (hmade : made = ⟨own.schema.insert new,
      (own.schema.insert new).components.map fun c => if c = new then w else own.valueOf c,
      .node e.text [own.lineage]⟩) :
    Computed e value scope name new own made := by
  have hget {c : Component} (hc : c ∈ (own.schema.insert new).components) :
      made.get? c.name = some (if c = new then w else own.valueOf c) := by
    rw [hmade]
    exact Row.get?_map hc
  subst hmade
  refine ⟨?_, fun other c hc hthis => ?_, fun c hc hne => ?_, rfl⟩
  · obtain ⟨v, hv, hcast⟩ := Expr.exists_of_computedValue hw
    refine ⟨v, w, hv, hcast, ?_⟩
    rw [lookup?, hfound, Option.bind_some, hget (Schema.mem_of_component? hfound), if_pos rfl]
  · have hvalue := hown.get?_eq_valueOf (Schema.mem_of_component? hc)
    refine ⟨_, hvalue, Expr.eval_var_ofRow hthis ?_ ?_⟩
    · rw [hc]
      rfl
    · rw [lookup?, hc, Option.bind_some, hvalue]
  · obtain ⟨hmem, -⟩ := (Schema.mem_insert hc).resolve_left hne
    exact ⟨_, hown.get?_eq_valueOf hmem, (hget hc).trans (congrArg some (if_neg hne))⟩

/-- A computed column is that of the measure its name refers to afterwards, of the type of its
expression in a row, and all that is new.  The rows correspond to the given ones, one by one, up to
the first one for which there is no value that the measure takes, if there is one. -/
theorem computed_column {x : Expr} {d : DataSet} {v : Value}
    (hx : x.eval scope = .ok (.dataset d)) (hd : d.WellFormed)
    (h : (Expr.compute x name value).eval scope = .ok v) :
    ∃ (out : DataSet) (new : Component) (shape : Shape), v = .dataset out ∧
      value.shape? (.row d.schema none (.ofDataSet d scope)) = .ok shape ∧
      shape.computedDomain = .ok new.domain ∧ new.role = .measure ∧
      out.schema.component? name = some new ∧ d.schema.Updated new out.schema ∧
      d.schema.IdentifiersStay out.schema ∧
      List.Forall₂ (fun own made => made.schema = out.schema ∧
          Row.Computed (.compute x name value) value scope name new own made)
        (d.stream.rows.take out.stream.rows.length) out.stream.rows ∧
      (d.stream.rows.length = out.stream.rows.length ∧ out.stream.fault = d.stream.fault ∨
        ∃ own err, d.stream.rows[out.stream.rows.length]? = some own ∧
          value.computedValue scope new own = .error err ∧ out.stream.fault = some err) := by
  obtain ⟨given, hgiven, h⟩ := bind_eq_ok.1 h
  cases hx.symm.trans hgiven
  obtain ⟨d', hd', h⟩ := bind_eq_ok.1 h
  cases Value.asDataSet_eq_ok.1 hd'
  obtain ⟨shape, hshape, h⟩ := bind_eq_ok.1 h
  obtain ⟨domain, hdomain, h⟩ := bind_eq_ok.1 h
  obtain ⟨target, htarget, h⟩ := bind_eq_ok.1 h
  obtain ⟨new, hnew, h⟩ := bind_eq_ok.1 h
  cases h
  obtain ⟨rfl, hfound, hrole, rfl, hidentifiers⟩ := Schema.exists_computed htarget hnew
  obtain ⟨hrows, hend⟩ := RowStream.forall₂_mapFrom
    (DataSet.computedRow new (d.schema.insert new) (Expr.compute x name value).text fun r => do
      (← value.evalWith scope.ruleMeaning (.ofRow r scope.root)).asComputed)
    d.stream.fault d.stream.rows
  refine ⟨_, new, shape, rfl, hshape, hdomain, hrole, hfound, d.schema.updated_insert new,
    hidentifiers, ?_, hend.imp id ?_⟩
  · refine (forall₂_mem hrows).imp fun own made ⟨hmade, hown, _⟩ => ?_
    obtain ⟨hschema, hfits⟩ := hd own (List.mem_of_mem_take hown)
    rw [← hschema, DataSet.computedRow_eq_computedValue hfits] at hmade
    obtain ⟨w, hw, hmade⟩ := map_eq_ok.1 hmade
    rw [← hschema] at hfound
    refine ⟨?_, Row.computed_of_computedValue hfits hfound hw hmade.symm⟩
    rw [← hmade, hschema]
    rfl
  · rintro ⟨own, err, hown, herr, hfault⟩
    obtain ⟨hschema, hfits⟩ := hd own (List.mem_of_getElem? hown)
    rw [← hschema, DataSet.computedRow_eq_computedValue hfits] at herr
    exact ⟨own, err, hown, map_eq_error.1 herr, hfault⟩

/-- A measure is replaced by the test whether it is null. -/
def nullsOfKeyed : Expr := .compute (.var "ds") "M" (.unary .isNull (.var "m"))

/-- The test of both rows sees the measure that it replaces. -/
theorem computed_column_nulls :
    (Expr.var "ds").eval keyedScope = .ok (.dataset keyedDataSet) ∧ keyedDataSet.WellFormed ∧
      ∃ out, nullsOfKeyed.eval keyedScope = .ok (.dataset out) ∧
        List.Forall₂ (Row.Computed nullsOfKeyed (.unary .isNull (.var "m")) keyedScope "M"
          ⟨"m", .measure, .boolean⟩) keyedDataSet.stream.rows out.stream.rows ∧
        out.stream.rows.map Row.values =
          [[.string "a", .boolean false], [.string "b", .boolean true]] := by
  have hx : (Expr.var "ds").eval keyedScope = .ok (.dataset keyedDataSet) := rfl
  have hd : keyedDataSet.WellFormed := DataSet.wellFormed_named named_keyedDataSet
  obtain ⟨v, hv⟩ : ∃ v, nullsOfKeyed.eval keyedScope = .ok v := ⟨_, rfl⟩
  obtain ⟨out, new, shape, rfl, -, -, -, hfound, -, -, hrows, -⟩ := computed_column hx hd hv
  cases hv
  cases hfound
  exact ⟨hx, hd, _, rfl, hrows.imp fun _ _ h => h.2, rfl⟩

end DataCube
