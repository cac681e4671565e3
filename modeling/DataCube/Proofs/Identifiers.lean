import DataCube.Proofs.ReducedRows
import DataCube.Proofs.Shifts

/-!
# Identifiers are kept

Identifiers cannot be projected away or computed anew, and operators and windows take them over from
row to row.  So the schema of a derived dataset has the identifiers of the dataset it is derived
from, and its rows have the values for them of the rows that they are made from.  Only an aggregate
leaves identifiers out.

* `Schema.identifiers_membership`, `identifiers_keep`, `identifiers_drop`,
  `identifiers_mapMeasures`, `computed_eq_ok`: the schemas.
* `Row.KeepsKeys`: a row has the key of another.  `Draft.keepsKeys_build` says when a row that is
  built does.
* `DataSet.keepsKeys_memberRow`, `keepsKeys_projectRow`, `keepsKeys_computedRow`,
  `keepsKeys_mapMeasuresRow`, `Shift.keepsKeys_partition`, `Reducer.keepsKeys_partition`: the rows.
-/

namespace DataCube

/-! ## Identifiers of derived schemas -/

namespace Schema

variable {s s' : Schema} {name : String} {names : List String}

theorem identifiers_insert {new : Component} (h : ∀ c ∈ s.identifiers, c.name ≠ new.name) :
    s.identifiers ⊆ (s.insert new).identifiers := by
  intro c hc
  obtain ⟨hmem, hrole⟩ := mem_identifiers.1 hc
  exact mem_identifiers.2 ⟨mem_insert_of_mem hmem (h c hc), hrole⟩

theorem identifiers_restrict {keep : Component → Bool} (h : ∀ c ∈ s.identifiers, keep c = true) :
    s.identifiers ⊆ (s.restrict keep).identifiers := by
  intro c hc
  obtain ⟨hmem, hrole⟩ := mem_identifiers.1 hc
  exact mem_identifiers.2 ⟨List.mem_filter.2 ⟨hmem, h c hc⟩, hrole⟩

/-- A component that is no identifier has a name of its own. -/
theorem name_ne_of_other {c other : Component} (hc : c ∈ s.identifiers)
    (hother : other ∈ s.components) (hrole : other.role ≠ .identifier) : c.name ≠ other.name := by
  intro hname
  obtain ⟨hmem, hidentifier⟩ := mem_identifiers.1 hc
  rw [← eq_of_name hmem hother hname] at hrole
  exact hrole hidentifier

theorem requireOther_eq_ok {use : ComponentUse} {c : Component} :
    s.requireOther use name = .ok c ↔ s.component? name = some c ∧ c.role ≠ .identifier := by
  unfold requireOther
  rw [bind_eq_ok]
  constructor
  · rintro ⟨c', hc', h⟩
    split at h
    · nomatch h
    · rename_i hrole
      cases h
      exact ⟨require_eq_ok.1 hc', hrole⟩
  · rintro ⟨hc, hrole⟩
    exact ⟨c, require_eq_ok.2 hc, if_neg hrole⟩

theorem identifiers_keep (h : s.keep names = .ok s') : s.identifiers ⊆ s'.identifiers := by
  obtain ⟨kept, -, h⟩ := bind_eq_ok.1 h
  rw [← Except.ok.inj h]
  refine identifiers_restrict fun c hc => ?_
  simp [(mem_identifiers.1 hc).2]

theorem identifiers_drop (h : s.drop names = .ok s') : s.identifiers ⊆ s'.identifiers := by
  obtain ⟨dropped, hdropped, h⟩ := bind_eq_ok.1 h
  rw [← Except.ok.inj h]
  refine identifiers_restrict fun c hc => ?_
  rw [Bool.not_eq_true', List.any_eq_false]
  intro other hother hname
  obtain ⟨name, -, hrequire⟩ := exists_of_mem_mapM hdropped hother
  obtain ⟨hother, hrole⟩ := requireOther_eq_ok.1 hrequire
  exact name_ne_of_other hc (mem_of_component? hother) hrole (of_decide_eq_true hname).symm

theorem identifiers_mapMeasures {domainOf : Component → Except EvalError Domain}
    (h : s.mapMeasures domainOf = .ok s') : s.identifiers ⊆ s'.identifiers := by
  intro c hc
  obtain ⟨hmem, hrole⟩ := mem_identifiers.1 hc
  obtain ⟨c', hc', hrel⟩ := exists_remeasured h hmem
  rw [hrel.other (by rw [hrole]; decide)] at hc'
  exact mem_identifiers.2 ⟨hc', hrole⟩

/-- A measure that is found again under its name has not taken the place of an identifier. -/
theorem computed_eq_ok {domain : Domain} {computed : Component}
    (h : s.withMeasure name domain = .ok s') (hcomputed : s'.require name = .ok computed) :
    s' = s.insert computed ∧ ∀ c ∈ s.identifiers, c.name ≠ computed.name := by
  have hfound := require_eq_ok.1 hcomputed
  rcases withMeasure_eq_ok h with ⟨other, hother, hrole, rfl⟩ | ⟨hnone, rfl⟩
  · have hreplaced : (s.insert ⟨other.name, .measure, domain⟩).component? name =
        some ⟨other.name, .measure, domain⟩ := component?_insert_found hother rfl
    cases hreplaced.symm.trans hfound
    refine ⟨rfl, fun c hc => ?_⟩
    show c.name ≠ other.name
    exact name_ne_of_other hc (mem_of_component? hother) hrole
  · cases component?_insert_new hnone hfound
    refine ⟨rfl, fun c hc => ?_⟩
    rcases component?_insert_normalized ⟨normalizeName name, .measure, domain⟩ hnone rfl with
      ⟨hfinds, -⟩ | ⟨-, hlost⟩
    · exact name_ne_normalizeName hnone hfinds (mem_identifiers.1 hc).1
    · nomatch hlost.symm.trans hfound

theorem identifiers_membership (h : s.membership name = .ok s') :
    s.identifiers ⊆ s'.identifiers ∧
      ∀ member, s.require name = .ok member → ∀ c ∈ s.identifiers, c.name ≠ member.name := by
  obtain ⟨member, hmember, hrequire, hrole, rfl⟩ := membership_eq_ok h
  have hnames : ∀ c ∈ s.identifiers, c.name ≠ member.name :=
    fun c hc => name_ne_of_other hc hmember hrole
  have hkept : s.identifiers ⊆ (s.restrict (·.role = .identifier)).identifiers :=
    identifiers_restrict fun c hc => decide_eq_true (mem_identifiers.1 hc).2
  constructor
  · intro c hc
    refine identifiers_insert (fun c hc => ?_) (hkept hc)
    obtain ⟨hmem, hidentifier⟩ := mem_identifiers.1 hc
    exact hnames c (mem_identifiers.2 ⟨List.mem_of_mem_filter hmem, hidentifier⟩)
  · intro member' hrequire'
    cases hrequire.symm.trans hrequire'
    exact hnames

end Schema

/-! ## Rows -/

/-- The row has the values of another for the components. -/
def Row.KeepsKeys (cs : List Component) (own made : Row) : Prop :=
  ∀ c ∈ cs, made.valueOf c = own.valueOf c

section Rows

variable {s target : Schema} {r made : Row} {c : Component} {lineage : Lineage}

/-- A row has the values it is built of, where these go with their components. -/
theorem Draft.valueOf_build {d : Draft} (h : d.build target lineage = .ok made)
    (hc : c ∈ target.components) {v : Scalar} (hv : d.get? c.name = some v)
    (hdomain : c.domain.Describes v.domain) : made.valueOf c = v := by
  obtain ⟨w, hw, hget⟩ := get?_build h hc
  rw [valueFor, hv] at hw
  rw [Row.valueOf, hget, Option.getD_some]
  exact (Except.ok.inj (hw.symm.trans (Component.store_of_describes hdomain)))

/-- A row that is built of the identifiers of another, and whatever else, keeps its key. -/
theorem Draft.keepsKeys_build {d : Draft} (h : d.build target lineage = .ok made)
    (hr : r.WellFormed) (htarget : r.schema.identifiers ⊆ target.identifiers)
    (hd : ∀ c ∈ r.schema.identifiers, d.get? c.name = some (r.valueOf c)) :
    Row.KeepsKeys r.schema.identifiers r made := by
  intro c hc
  have hmem := (Schema.mem_identifiers.1 (htarget hc)).1
  exact valueOf_build h hmem (hd c hc) (hr.describes_valueOf (Schema.mem_of_mem_identifiers hc))

end Rows

/-! ## Operations on rows -/

section Operations

variable {target : Schema} {r made : Row} {label : String}

theorem DataSet.keepsKeys_memberRow {member : Component}
    (h : memberRow member target label r = .ok made) (hr : r.WellFormed)
    (htarget : r.schema.identifiers ⊆ target.identifiers)
    (hmember : ∀ c ∈ r.schema.identifiers, c.name ≠ member.name) :
    Row.KeepsKeys r.schema.identifiers r made := by
  refine Draft.keepsKeys_build h hr htarget fun c hc => ?_
  obtain ⟨hmem, hrole⟩ := Schema.mem_identifiers.1 hc
  rw [Draft.get?_set, if_neg (hmember c hc).symm, hr.entriesWith_eq]
  exact Draft.get?_setAll_withRole hmem (Or.inl ⟨hrole, rfl⟩)

theorem DataSet.keepsKeys_projectRow (h : projectRow target label r = .ok made) (hr : r.WellFormed)
    (htarget : r.schema.identifiers ⊆ target.identifiers) :
    Row.KeepsKeys r.schema.identifiers r made := by
  refine Draft.keepsKeys_build h hr htarget fun c hc => ?_
  have hget := hr.get?_eq_valueOf (Schema.mem_of_mem_identifiers hc)
  refine Draft.get?_setAll_same (List.mem_filterMap.2 ⟨c, ?_, ?_⟩) fun e he hname => ?_
  · exact Schema.mem_of_mem_identifiers (htarget hc)
  · rw [hget, Option.map_some]
  · obtain ⟨c', -, he⟩ := List.mem_filterMap.1 he
    obtain ⟨v, hv, rfl⟩ := Option.map_eq_some_iff.1 he
    simp only at hname
    rw [hname, hget] at hv
    exact (Option.some.inj hv).symm

theorem DataSet.keepsKeys_computedRow {computed : Component}
    {valueOf : Row → Except EvalError Scalar}
    (h : computedRow computed target label valueOf r = .ok made) (hr : r.WellFormed)
    (htarget : r.schema.identifiers ⊆ target.identifiers)
    (hcomputed : ∀ c ∈ r.schema.identifiers, c.name ≠ computed.name) :
    Row.KeepsKeys r.schema.identifiers r made := by
  obtain ⟨v, -, h⟩ := bind_eq_ok.1 h
  refine Draft.keepsKeys_build h hr htarget fun c hc => ?_
  have hmem := Schema.mem_of_mem_identifiers hc
  rw [Draft.get?_set, if_neg (hcomputed c hc).symm, hr.entries_eq]
  exact Draft.get?_setAll_map (fun _ hk => hk) hmem (Or.inl ⟨hmem, rfl⟩)

/-- What a component gets when measures are changed. -/
def DataSet.mappedValue (f : Scalar → Except EvalError Scalar) (r : Row) (c : Component) :
    Except EvalError Scalar :=
  if c.role = .measure then f (r.valueOf c) else .ok (r.valueOf c)

theorem DataSet.mapMeasuresRow_eq {f : Scalar → Except EvalError Scalar} (hr : r.WellFormed) :
    mapMeasuresRow target label f r =
      (r.schema.components.mapM fun c => (mappedValue f r c).map fun v => (c, v)) >>=
        fun entries => (Draft.empty.setAll entries).build target (derivedLineage label r) := by
  unfold mapMeasuresRow
  rw [hr.entries_eq, List.mapM_map]
  congr 2
  funext c
  show (if c.role = .measure then _ else _) = _
  unfold mappedValue
  split <;> rfl

theorem DataSet.exists_mappedValues {f : Scalar → Except EvalError Scalar} {cs : List Component}
    (h : ∀ c ∈ cs, ∃ v, mappedValue f r c = .ok v) :
    ∃ value : Component → Scalar, ∀ c ∈ cs, mappedValue f r c = .ok (value c) := by
  refine ⟨fun c => (mappedValue f r c).toOption.getD (.null .null), fun c hc => ?_⟩
  obtain ⟨v, hv⟩ := h c hc
  show mappedValue f r c = .ok ((mappedValue f r c).toOption.getD (.null .null))
  rw [hv]
  rfl

/-- A row with its measures changed is built of what the components get. -/
theorem DataSet.mapMeasuresRow_eq_ok {f : Scalar → Except EvalError Scalar} (hr : r.WellFormed) :
    mapMeasuresRow target label f r = .ok made ↔
      ∃ value : Component → Scalar,
        (∀ c ∈ r.schema.components, mappedValue f r c = .ok (value c)) ∧
        (Draft.empty.setAll (r.schema.components.map fun c => (c, value c))).build target
          (derivedLineage label r) = .ok made := by
  rw [mapMeasuresRow_eq hr, bind_eq_ok]
  constructor
  · rintro ⟨entries, hentries, hbuild⟩
    have hmapped := (mapM_eq_ok.1 hentries).imp fun _ _ h => map_eq_ok.1 h
    obtain ⟨value, hvalue⟩ := exists_mappedValues (f := f) (r := r) fun c hc => by
      obtain ⟨e, -, v, hv, -⟩ := exists_of_forall₂ hmapped hc
      exact ⟨v, hv⟩
    have hmap : r.schema.components.map (fun c => (c, value c)) = entries.map id := by
      refine map_eq_map_of_forall₂ (forall₂_mem hmapped) fun c e he => ?_
      obtain ⟨⟨v, hv, rfl⟩, hc, -⟩ := he
      cases hv.symm.trans (hvalue c hc)
      rfl
    rw [List.map_id] at hmap
    exact ⟨value, hvalue, hmap ▸ hbuild⟩
  · rintro ⟨value, hvalue, hbuild⟩
    refine ⟨_, mapM_eq_ok.2 ?_, hbuild⟩
    rw [List.forall₂_map_right_iff, List.forall₂_same]
    exact fun c hc => map_eq_ok.2 ⟨value c, hvalue c hc, rfl⟩

theorem DataSet.keepsKeys_mapMeasuresRow {f : Scalar → Except EvalError Scalar}
    (h : mapMeasuresRow target label f r = .ok made) (hr : r.WellFormed)
    (htarget : r.schema.identifiers ⊆ target.identifiers) :
    Row.KeepsKeys r.schema.identifiers r made := by
  obtain ⟨value, hvalue, hbuild⟩ := (mapMeasuresRow_eq_ok hr).1 h
  refine Draft.keepsKeys_build hbuild hr htarget fun c hc => ?_
  obtain ⟨hmem, hrole⟩ := Schema.mem_identifiers.1 hc
  have hkept := hvalue c hmem
  rw [mappedValue, if_neg (by rw [hrole]; decide)] at hkept
  rw [Except.ok.inj hkept]
  exact Draft.get?_setAll_map (fun _ hk => hk) hmem (Or.inl ⟨hmem, rfl⟩)

end Operations

/-! ## Partitions -/

section Partitions

variable {schema target : Schema} {label : String} {rows made : List Row}

theorem Shift.keepsKeys_partition {direction : Shift} {offset : Nat} {default : Option Scalar}
    (hrows : ∀ r ∈ rows, r.schema = schema ∧ r.WellFormed)
    (h : direction.partition offset default schema label rows = .ok made) :
    List.Forall₂ (Row.KeepsKeys schema.identifiers) rows made := by
  have hpartition := partition_eq_ok hrows h
  refine List.forall₂_iff_get.2 ⟨hpartition.length.symm, fun i hi hi' => ?_⟩
  obtain ⟨r, hr, hrowAt⟩ := hpartition.rowAt i rows[i] (List.getElem?_eq_getElem hi)
  rw [List.getElem?_eq_getElem hi'] at hr
  cases hr
  obtain ⟨hschema, -⟩ := hrows rows[i] (List.getElem_mem hi)
  intro c hc
  obtain ⟨hmem, hrole⟩ := Schema.mem_identifiers.1 hc
  exact congrArg (Option.getD · _) (hrowAt.kept c (hschema ▸ hmem) (by rw [hrole]; decide))

theorem Reducer.keepsKeys_partition {r : Reducer} {isRunning : Bool}
    (hrows : ∀ own ∈ rows, own.schema = schema ∧ own.WellFormed)
    (htarget : schema.identifiers ⊆ target.identifiers)
    (h : r.partition isRunning schema.measures target label rows = .ok made) :
    List.Forall₂ (Row.KeepsKeys schema.identifiers) rows made := by
  refine forall₂_of_zipIdx ((forall₂_mem (mapM_eq_ok.1 h)).imp fun e made he => ?_)
  obtain ⟨hrow, hmem, -⟩ := he
  obtain ⟨rfl, hown⟩ := hrows e.1 (List.fst_mem_of_mem_zipIdx hmem)
  obtain ⟨entries, hentries, hbuild⟩ := row_eq_ok.1 hrow
  refine Draft.keepsKeys_build hbuild hown htarget fun c hc => ?_
  obtain ⟨hmem, hrole⟩ := Schema.mem_identifiers.1 hc
  exact get?_own hentries hown hmem (by rw [hrole]; decide)

end Partitions

end DataCube
