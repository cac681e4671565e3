import DataCube.Evaluation
import DataCube.Proofs.Interchange.Scalars

/-!
# Rows and datasets that nothing tells apart

Scalars that are alike make rows that are alike, and these make datasets that are alike: the same
schema and name, and streams that yield rows with like values and equal lineages, and end with the
same error.  Everything that reads or makes rows hands the relation on.

* `Row.Alike`, `Draft.Alike`: place by place, and name by name.
* `RowStream.Alike`, `DataSet.Alike`, `Value.Alike`.
* `Draft.Alike.agree_build`: drafts that are alike make rows that are alike, or the same error.
* `DataSet.Alike.mapRows`, `DataSet.Alike.filter` and the operations that are made of them.
-/

namespace DataCube

variable {signs : Prop}

/-! ## Rows -/

/-- Entries of one component or name, with values that are alike. -/
def EntryAlike {κ : Type} (signs : Prop) (e e' : κ × Scalar) : Prop :=
  e.1 = e'.1 ∧ e.2.Alike signs e'.2

theorem EntryAlike.refl {κ : Type} (e : κ × Scalar) : EntryAlike signs e e := ⟨rfl, .refl e.2⟩

/-- The rows have one schema and one lineage, and values that are alike. -/
structure Row.Alike (signs : Prop) (r r' : Row) : Prop where
  schema : r.schema = r'.schema
  values : List.Forall₂ (Scalar.Alike signs) r.values r'.values
  lineage : r.lineage = r'.lineage

namespace Row.Alike

variable {r r' : Row}

theorem refl (r : Row) : r.Alike signs r :=
  ⟨rfl, List.forall₂_same.2 fun v _ => .refl v, rfl⟩

theorem entries (h : r.Alike signs r') : List.Forall₂ (EntryAlike signs) r.entries r'.entries := by
  unfold Row.entries
  rw [h.schema]
  exact forall₂_zip _ h.values

theorem entriesWith (h : r.Alike signs r') (role : Role) :
    List.Forall₂ (EntryAlike signs) (r.entriesWith role) (r'.entriesWith role) :=
  forall₂_filter h.entries fun e e' he => by rw [he.1]

theorem valueAt (h : r.Alike signs r') (i : Nat) : (r.valueAt i).Alike signs (r'.valueAt i) :=
  rel_getD (forall₂_getElem? h.values i) (.refl _)

theorem get? (h : r.Alike signs r') (name : String) :
    Option.Rel (Scalar.Alike signs) (r.get? name) (r'.get? name) := by
  unfold Row.get?
  rw [h.schema]
  cases r'.schema.positionOf? name with
  | none => exact .none
  | some i => exact forall₂_getElem? h.values i

theorem lookup? (h : r.Alike signs r') (name : String) :
    Option.Rel (Scalar.Alike signs) (r.lookup? name) (r'.lookup? name) := by
  unfold Row.lookup?
  rw [h.schema]
  cases r'.schema.component? name with
  | none => exact .none
  | some c => exact h.get? c.name

theorem key (h : r.Alike signs r') (positions : List Nat) :
    List.Forall₂ (Scalar.Alike signs) (r.key positions) (r'.key positions) := by
  unfold Row.key
  rw [List.forall₂_map_left_iff, List.forall₂_map_right_iff, List.forall₂_same]
  exact fun i _ => h.valueAt i

theorem derivedLineage (h : r.Alike signs r') (label : String) :
    DataSet.derivedLineage label r = DataSet.derivedLineage label r' := by
  unfold DataSet.derivedLineage
  rw [h.lineage]

end Row.Alike

/-! ## Drafts -/

/-- The drafts have been given the same names in the same order, with values that are alike. -/
def Draft.Alike (signs : Prop) (d d' : Draft) : Prop :=
  List.Forall₂ (EntryAlike signs) d.values d'.values

namespace Draft.Alike

variable {d d' : Draft}

theorem empty : Draft.empty.Alike signs Draft.empty := .nil

theorem set (h : d.Alike signs d') (name : String) {v w : Scalar} (hv : v.Alike signs w) :
    (d.set name v).Alike signs (d'.set name w) :=
  .cons ⟨rfl, hv⟩ h

theorem setAll {entries entries' : List (Component × Scalar)} (h : d.Alike signs d')
    (hentries : List.Forall₂ (EntryAlike signs) entries entries') :
    (d.setAll entries).Alike signs (d'.setAll entries') := by
  unfold Draft.setAll
  induction hentries generalizing d d' with
  | nil => exact h
  | @cons e e' _ _ he _ ih =>
    rw [List.foldl_cons, List.foldl_cons, he.1]
    exact ih (h.set e'.1.name he.2)

theorem get? (h : d.Alike signs d') (name : String) :
    Option.Rel (Scalar.Alike signs) (d.get? name) (d'.get? name) :=
  rel_map (forall₂_find? h fun e e' he => by rw [he.1]) fun e e' he => he.2

theorem agree_valueFor (h : d.Alike signs d') (schema : Schema) (c : Component) :
    Agree (Scalar.Alike signs) (d.valueFor schema c) (d'.valueFor schema c) := by
  have hvalue := h.get? c.name
  unfold valueFor
  generalize d.get? c.name = x, d'.get? c.name = y at hvalue ⊢
  cases hvalue with
  | none => exact .error (.refl _)
  | some hv => exact c.agree_store hv

theorem agree_build (h : d.Alike signs d') (schema : Schema) {lineage lineage' : Lineage}
    (hlineage : lineage = lineage') :
    Agree (Row.Alike signs) (d.build schema lineage) (d'.build schema lineage') := by
  subst hlineage
  have hcomponents : List.Forall₂ Eq schema.components schema.components :=
    List.forall₂_eq_eq_eq ▸ rfl
  refine Agree.bind (Agree.mapM hcomponents fun c c' hc => ?_) fun vs ws hvalues =>
    .ok ⟨rfl, hvalues, rfl⟩
  subst hc
  exact h.agree_valueFor schema c

end Draft.Alike

/-! ## Streams -/

/-- The streams yield rows that are alike, and end with the same error if they do with one. -/
structure RowStream.Alike (signs : Prop) (s s' : RowStream) : Prop where
  rows : List.Forall₂ (Row.Alike signs) s.rows s'.rows
  fault : Option.Rel EvalError.Alike s.fault s'.fault

namespace RowStream.Alike

variable {s s' : RowStream}

theorem refl (s : RowStream) : s.Alike signs s := by
  refine ⟨List.forall₂_same.2 fun r _ => .refl r, ?_⟩
  cases s.fault with
  | none => exact .none
  | some e => exact .some (.refl e)

theorem ofRows {rows rows' : List Row} (h : List.Forall₂ (Row.Alike signs) rows rows') :
    (RowStream.ofRows rows).Alike signs (RowStream.ofRows rows') :=
  ⟨h, .none⟩

theorem ofResult {x y : Except EvalError (List Row)}
    (h : Agree (List.Forall₂ (Row.Alike signs)) x y) :
    (RowStream.ofResult x).Alike signs (RowStream.ofResult y) := by
  cases h with
  | ok hrows => exact ⟨hrows, .none⟩
  | error he => exact ⟨.nil, .some he⟩

theorem agree_collect (h : s.Alike signs s') :
    Agree (List.Forall₂ (Row.Alike signs)) s.collect s'.collect := by
  obtain ⟨rows, fault⟩ := s
  obtain ⟨rows', fault'⟩ := s'
  obtain ⟨hrows, hfault⟩ := h
  cases hfault with
  | none => exact .ok hrows
  | some he => exact .error he

/-- Steps on the rows that agree give streams that are alike: both stop at the same row. -/
theorem mapFrom {f g : Row → Except EvalError Row} {fault fault' : Option EvalError}
    {rows rows' : List Row} (hrows : List.Forall₂ (Row.Alike signs) rows rows')
    (hfault : Option.Rel EvalError.Alike fault fault')
    (hfg : ∀ r r', r.Alike signs r' → Agree (Row.Alike signs) (f r) (g r')) :
    (RowStream.mapFrom f fault rows).Alike signs (RowStream.mapFrom g fault' rows') := by
  induction hrows with
  | nil => exact ⟨.nil, hfault⟩
  | @cons r r' _ _ hr _ ih =>
    have hstep := hfg r r' hr
    unfold RowStream.mapFrom
    generalize f r = x, g r' = y at hstep ⊢
    cases hstep with
    | ok himage => exact ⟨.cons himage ih.rows, ih.fault⟩
    | error he => exact ⟨.nil, .some he⟩

theorem filterFrom {p q : Row → Except EvalError Bool} {fault fault' : Option EvalError}
    {rows rows' : List Row} (hrows : List.Forall₂ (Row.Alike signs) rows rows')
    (hfault : Option.Rel EvalError.Alike fault fault')
    (hpq : ∀ r r', r.Alike signs r' → Agree Eq (p r) (q r')) :
    (RowStream.filterFrom p fault rows).Alike signs (RowStream.filterFrom q fault' rows') := by
  induction hrows with
  | nil => exact ⟨.nil, hfault⟩
  | @cons r r' _ _ hr _ ih =>
    have hstep := hpq r r' hr
    unfold RowStream.filterFrom
    generalize p r = x, q r' = y at hstep ⊢
    cases hstep with
    | @ok passes passes' heq =>
      subst heq
      cases passes with
      | true => exact ⟨.cons hr ih.rows, ih.fault⟩
      | false => exact ih
    | error he => exact ⟨.nil, .some he⟩

end RowStream.Alike

/-! ## Datasets -/

/-- The datasets have one schema and name, and streams that are alike. -/
structure DataSet.Alike (signs : Prop) (d d' : DataSet) : Prop where
  schema : d.schema = d'.schema
  givenName : d.givenName = d'.givenName
  stream : d.stream.Alike signs d'.stream

/-- The values are scalars that are alike, or datasets that are. -/
inductive Value.Alike (signs : Prop) : Value → Value → Prop where
  | scalar {v w : Scalar} : v.Alike signs w → Alike signs (.scalar v) (.scalar w)
  | dataset {d d' : DataSet} : d.Alike signs d' → Alike signs (.dataset d) (.dataset d')

theorem DataSet.Alike.refl (d : DataSet) : d.Alike signs d := ⟨rfl, rfl, .refl d.stream⟩

theorem Value.Alike.refl (v : Value) : v.Alike signs v := by
  cases v with
  | scalar v => exact .scalar (.refl v)
  | dataset d => exact .dataset (.refl d)

namespace DataSet.Alike

variable {d d' : DataSet}

theorem mapRows (h : d.Alike signs d') (target : Schema) {f g : Row → Except EvalError Row}
    (hfg : ∀ r r', r.Alike signs r' → Agree (Row.Alike signs) (f r) (g r')) :
    (d.mapRows target f).Alike signs (d'.mapRows target g) :=
  ⟨rfl, rfl, .mapFrom h.stream.rows h.stream.fault hfg⟩

theorem filter (h : d.Alike signs d') {p q : Row → Except EvalError Bool}
    (hpq : ∀ r r', r.Alike signs r' → Agree Eq (p r) (q r')) :
    (d.filter p).Alike signs (d'.filter q) :=
  ⟨h.schema, rfl, .filterFrom h.stream.rows h.stream.fault hpq⟩

/-- Datasets of rows that are computed as a whole. -/
theorem derived {schema schema' : Schema} (hschema : schema = schema')
    {x y : Except EvalError (List Row)} (h : Agree (List.Forall₂ (Row.Alike signs)) x y) :
    (DataSet.derived schema fun _ => .ofResult x).Alike signs
      (DataSet.derived schema' fun _ => .ofResult y) :=
  ⟨hschema, rfl, .ofResult h⟩

theorem agree_memberRow (member : Component) (target : Schema) (label : String) {r r' : Row}
    (h : r.Alike signs r') :
    Agree (Row.Alike signs) (memberRow member target label r) (memberRow member target label r') :=
  ((Draft.Alike.empty.setAll (h.entriesWith .identifier)).set member.name
    (rel_getD (h.get? member.name) (.refl _))).agree_build target (h.derivedLineage label)

theorem agree_membership (h : d.Alike signs d') (name label : String) :
    Agree (DataSet.Alike signs) (d.membership name label) (d'.membership name label) := by
  unfold membership
  rw [h.schema]
  refine Agree.bind_same _ fun target _ => Agree.bind_same _ fun member _ => .ok ?_
  exact h.mapRows target fun r r' hr => agree_memberRow member target label hr

theorem agree_projectRow (target : Schema) (label : String) {r r' : Row} (h : r.Alike signs r') :
    Agree (Row.Alike signs) (projectRow target label r) (projectRow target label r') := by
  have hvalues : List.Forall₂ (EntryAlike signs)
      (target.components.filterMap fun c => (r.get? c.name).map fun v => (c, v))
      (target.components.filterMap fun c => (r'.get? c.name).map fun v => (c, v)) := by
    induction target.components with
    | nil => exact .nil
    | cons c rest ih =>
      have hget := h.get? c.name
      rw [List.filterMap_cons, List.filterMap_cons]
      generalize r.get? c.name = x, r'.get? c.name = y at hget ⊢
      cases hget with
      | none => exact ih
      | some hv => exact .cons ⟨rfl, hv⟩ ih
  exact (Draft.Alike.empty.setAll hvalues).agree_build target (h.derivedLineage label)

theorem project (h : d.Alike signs d') (target : Schema) (label : String) :
    (d.project target label).Alike signs (d'.project target label) :=
  h.mapRows target fun _ _ hr => agree_projectRow target label hr

theorem agree_mapMeasuresRow (target : Schema) (label : String)
    {f g : Scalar → Except EvalError Scalar}
    (hfg : ∀ v w, v.Alike signs w → Agree (Scalar.Alike signs) (f v) (g w)) {r r' : Row}
    (h : r.Alike signs r') :
    Agree (Row.Alike signs) (mapMeasuresRow target label f r)
      (mapMeasuresRow target label g r') := by
  suffices hentries : Agree (List.Forall₂ (EntryAlike signs)) _ _ from
    hentries.bind fun _ _ hentries =>
      (Draft.Alike.empty.setAll hentries).agree_build target (h.derivedLineage label)
  refine Agree.mapM h.entries fun e e' he => ?_
  obtain ⟨hc, hv⟩ := he
  rw [hc]
  split
  · exact (hfg _ _ hv).map fun v w hvw => ⟨rfl, hvw⟩
  · exact .ok ⟨hc, hv⟩

theorem mapMeasures (h : d.Alike signs d') (target : Schema) (label : String)
    {f g : Scalar → Except EvalError Scalar}
    (hfg : ∀ v w, v.Alike signs w → Agree (Scalar.Alike signs) (f v) (g w)) :
    (d.mapMeasures target label f).Alike signs (d'.mapMeasures target label g) :=
  h.mapRows target fun _ _ hr => agree_mapMeasuresRow target label hfg hr

theorem agree_computedRow (computed : Component) (target : Schema) (label : String)
    {f g : Row → Except EvalError Scalar} {r r' : Row} (h : r.Alike signs r')
    (hfg : Agree (Scalar.Alike signs) (f r) (g r')) :
    Agree (Row.Alike signs) (computedRow computed target label f r)
      (computedRow computed target label g r') :=
  hfg.bind fun _ _ hv => ((Draft.Alike.empty.setAll h.entries).set computed.name hv).agree_build
    target (h.derivedLineage label)

end DataSet.Alike

/-! ## Operators on values -/

variable {v v' w w' : Value}

theorem UnaryOp.agree_onValue (op : UnaryOp) {label label' : String} (hlabel : label = label')
    (h : v.Alike signs w) :
    Agree (Value.Alike signs) (op.onValue label v) (op.onValue label' w) := by
  subst hlabel
  cases h with
  | scalar h => exact (op.agree_apply h).map fun _ _ => .scalar
  | dataset h =>
    simp only [onValue, h.schema]
    refine Agree.bind_same _ fun target _ => .ok (.dataset ?_)
    exact h.mapMeasures target label fun _ _ => op.agree_apply

theorem BinaryOp.agree_onValues (op : BinaryOp) {label label' : String} (hlabel : label = label')
    (h : v.Alike signs v') (h' : w.Alike signs w') :
    Agree (Value.Alike signs) (op.onValues label v w) (op.onValues label' v' w') := by
  subst hlabel
  cases h with
  | scalar h =>
    cases h' with
    | scalar h' => exact (op.agree_apply h h').map fun _ _ => .scalar
    | dataset h' =>
      simp only [onValues, h'.schema, h.domain_eq]
      refine Agree.bind_same _ fun target _ => .ok (.dataset ?_)
      exact h'.mapMeasures target label fun _ _ => op.agree_apply h
  | dataset h =>
    cases h' with
    | scalar h' =>
      simp only [onValues, h.schema, h'.domain_eq]
      refine Agree.bind_same _ fun target _ => .ok (.dataset ?_)
      exact h.mapMeasures target label fun _ _ hv => op.agree_apply hv h'
    | dataset h' => exact .error (.refl _)

end DataCube
