import DataCube.Proofs.RowStreams
import DataCube.Proofs.Safety.Drafts

/-!
# Rows that a named dataset takes

A named dataset is made of rows that are given as values in the order of the schema.  Each row is
checked, and its values are cast, before the next one is looked at.  The values travel through a
draft, by name, but the names of a schema are distinct, so every component gets the value in its
place.  A value is checked and cast by two tables, which agree: what passes the check can be cast.

* `Schema.Takes`: the rows that are as the schema asks for.
* `Schema.Refuses`: what is wrong with any other row, of which the first fault counts.
* `Row.Stores`: a row of the dataset against the values it was given as.
* `DataSet.namedRow_eq`: building a row is taking its values one after the other.
* `DataSet.stores_of_namedRow`, `DataSet.exists_namedRow_iff`, `DataSet.namedRow_eq_error`: what
  becomes of one row.
* `named_rows`: when there is a dataset of given rows, what it streams, and the error otherwise.
-/

namespace DataCube

variable {s : Schema} {name : String} {values : List Scalar} {r : Row} {e : EvalError}

/-! ## Rows that are given -/

/-- One value for every component, each of a domain that the component accepts. -/
structure Schema.Takes (s : Schema) (values : List Scalar) : Prop where
  length : values.length = s.size
  accepts : ∀ e ∈ s.components.zip values, e.1.domain.accepts e.2.domain = true

/-- What is wrong with a row: the number of its values, or else the first of them that has a domain
which its component does not accept. -/
inductive Schema.Refuses (s : Schema) (name : String) (values : List Scalar) :
    EvalError → Prop where
  | length : values.length ≠ s.size → Refuses s name values (.rowLength name s.size values.length)
  | domain {before after : List (Component × Scalar)} {c : Component} {v : Scalar} :
      values.length = s.size → s.components.zip values = before ++ (c, v) :: after →
      (∀ e ∈ before, e.1.domain.accepts e.2.domain = true) →
      c.domain.accepts v.domain = false →
      Refuses s name values (.incompatibleDomain (.valueOf c.name) c.domain v.domain)

/-- The row has the given values, each cast to the domain of its component.  A value of that very
domain, or for a component of unknown domain, stays as it is. -/
structure Row.Stores (r : Row) (name : String) (s : Schema) (values : List Scalar) : Prop where
  schema : r.schema = s
  lineage : r.lineage = .known name
  cast : List.Forall₂ (fun e w => e.2.cast e.1.domain = .ok w ∧
    (e.2.domain = e.1.domain ∨ e.1.domain = .unknown → w = e.2)) (s.components.zip values) r.values

/-! ## Single values -/

/-- A cast changes no value that has the domain already, or that may have any domain. -/
theorem Scalar.eq_of_cast {d : Domain} {v w : Scalar} (h : v.cast d = .ok w)
    (hd : v.domain = d ∨ d = .unknown) : w = v := by
  have hkept : v.cast d = .ok v := by
    rcases hd with rfl | rfl
    · exact v.cast_self
    · exact v.cast_unknown
  exact Except.ok.inj (h.symm.trans hkept)

namespace Component

variable {c : Component} {v : Scalar}

theorem exists_store_iff : (∃ w, c.store v = .ok w) ↔ c.domain.accepts v.domain = true := by
  refine ⟨fun ⟨w, hw⟩ => ?_, exists_store⟩
  by_contra hrefused
  rw [store_of_not_accepts (Bool.eq_false_iff.2 hrefused)] at hw
  nomatch hw

theorem store_eq_error : c.store v = .error e ↔
    c.domain.accepts v.domain = false ∧
      .incompatibleDomain (.valueOf c.name) c.domain v.domain = e := by
  cases haccepts : c.domain.accepts v.domain with
  | true =>
    obtain ⟨w, hw⟩ := exists_store haccepts
    simp [hw]
  | false => simp [store_of_not_accepts haccepts]

end Component

/-! ## Building a row -/

theorem Schema.map_fst_zip (h : values.length = s.size) :
    (s.components.zip values).map Prod.fst = s.components :=
  List.map_fst_zip (Nat.le_of_eq h.symm)

/-- The draft of a row has every value under the name of its component. -/
theorem Draft.get?_setAll_zip (h : values.length = s.size) {c : Component} {v : Scalar}
    (hmem : (c, v) ∈ s.components.zip values) :
    (Draft.empty.setAll (s.components.zip values)).get? c.name = some v := by
  have hnames : ((s.components.zip values).map fun e => e.1.name).Nodup := by
    have hcomponents := s.names_nodup
    rwa [← s.map_fst_zip h, List.map_map] at hcomponents
  refine get?_setAll_same hmem fun e he hname => ?_
  exact congrArg Prod.snd (List.inj_on_of_nodup_map hnames he hmem hname)

namespace DataSet

/-- A row is built by taking its values one after the other. -/
theorem namedRow_eq (h : values.length = s.size) :
    namedRow name s values =
      ((s.components.zip values).mapM fun e => Component.store e.1 e.2).map fun ws =>
        ⟨s, ws, .known name⟩ := by
  let draft := Draft.empty.setAll (s.components.zip values)
  have hvalues : s.components.mapM (draft.valueFor s) =
      (s.components.zip values).mapM fun e => e.1.store e.2 :=
    calc s.components.mapM (draft.valueFor s)
      _ = ((s.components.zip values).map Prod.fst).mapM (draft.valueFor s) := by
        rw [Schema.map_fst_zip h]
      _ = (s.components.zip values).mapM fun e => draft.valueFor s e.1 := List.mapM_map
      _ = (s.components.zip values).mapM fun e => e.1.store e.2 := by
        refine mapM_congr fun e he => ?_
        rw [Draft.valueFor, Draft.get?_setAll_zip h he]
  rw [namedRow, if_pos h, Draft.build, hvalues]
  rfl

theorem namedRow_of_length_ne (h : values.length ≠ s.size) :
    namedRow name s values = .error (.rowLength name s.size values.length) :=
  if_neg h

theorem namedRow_eq_ok : namedRow name s values = .ok r ↔
    values.length = s.size ∧ ∃ ws,
      List.Forall₂ (fun e w => e.1.store e.2 = .ok w) (s.components.zip values) ws ∧
        ⟨s, ws, .known name⟩ = r := by
  by_cases hlength : values.length = s.size
  · rw [namedRow_eq hlength, map_eq_ok]
    simp only [mapM_eq_ok, hlength, true_and]
  · rw [namedRow_of_length_ne hlength]
    exact ⟨nofun, fun h => absurd h.1 hlength⟩

/-- A row that is built has the values it was given as. -/
theorem stores_of_namedRow (h : namedRow name s values = .ok r) : r.Stores name s values := by
  obtain ⟨-, ws, hws, rfl⟩ := namedRow_eq_ok.1 h
  refine ⟨rfl, rfl, hws.imp fun e w hw => ?_⟩
  have hcast := Component.cast_of_store hw
  exact ⟨hcast, Scalar.eq_of_cast hcast⟩

/-- A row is built if it is as the schema asks for. -/
theorem exists_namedRow_iff : (∃ r, namedRow name s values = .ok r) ↔ s.Takes values := by
  constructor
  · rintro ⟨r, hr⟩
    obtain ⟨hlength, ws, hws, -⟩ := namedRow_eq_ok.1 hr
    refine ⟨hlength, fun e he => ?_⟩
    obtain ⟨w, -, hw⟩ := exists_of_forall₂ hws he
    exact Component.exists_store_iff.1 ⟨w, hw⟩
  · intro h
    obtain ⟨ws, hws⟩ := exists_forall₂ fun e he => Component.exists_store (h.accepts e he)
    exact ⟨_, namedRow_eq_ok.2 ⟨h.length, ws, hws, rfl⟩⟩

/-- Any other row fails for the first thing that is wrong with it. -/
theorem namedRow_eq_error : namedRow name s values = .error e ↔ s.Refuses name values e := by
  by_cases hlength : values.length = s.size
  · rw [namedRow_eq hlength, map_eq_error, mapM_eq_error]
    constructor
    · rintro ⟨before, ⟨c, v⟩, after, hsplit, hbefore, hv⟩
      obtain ⟨hrefused, rfl⟩ := Component.store_eq_error.1 hv
      exact .domain hlength hsplit (fun e he => Component.exists_store_iff.1 (hbefore e he))
        hrefused
    · intro h
      cases h with
      | length hne => exact absurd hlength hne
      | @domain before after c v _ hsplit hbefore hrefused =>
        exact ⟨before, (c, v), after, hsplit, fun e he => Component.exists_store (hbefore e he),
          Component.store_of_not_accepts hrefused⟩
  · rw [namedRow_of_length_ne hlength]
    constructor
    · intro h
      cases h
      exact .length hlength
    · intro h
      cases h with
      | length _ => rfl
      | domain hequal => exact absurd hequal hlength

/-! ## All rows -/

theorem named_eq_map (name : String) (s : Schema) (rows : List (List Scalar)) :
    named name s rows =
      (rows.mapM (namedRow name s)).map fun made => ⟨s, some name, .pure (.ofRows made)⟩ := by
  unfold named
  cases rows.mapM (namedRow name s) with
  | ok made => rfl
  | error e => rfl

theorem named_eq_ok {rows : List (List Scalar)} {d : DataSet} :
    named name s rows = .ok d ↔ ∃ made,
      List.Forall₂ (fun values r => namedRow name s values = .ok r) rows made ∧
        ⟨s, some name, .pure (.ofRows made)⟩ = d := by
  simp only [named_eq_map, map_eq_ok, mapM_eq_ok]

end DataSet

/-- There is a dataset of given rows if every one of them has one value for each component, of a
domain that this one accepts.  It streams these rows in order, each under the name of the dataset,
with the values cast to the domains of their components, and such a cast always succeeds.  Otherwise
the error is that of the first row that is refused, for its length or else for the first component
that does not accept its value. -/
theorem named_rows (name : String) (s : Schema) (rows : List (List Scalar)) :
    ((∃ d, DataSet.named name s rows = .ok d) ↔ ∀ values ∈ rows, s.Takes values) ∧
      (∀ d, DataSet.named name s rows = .ok d →
        d.schema = s ∧ d.givenName = some name ∧
          ∃ made : List Row, d.stream.items = made.map .ok ∧
            List.Forall₂ (fun values r => Row.Stores r name s values) rows made) ∧
      (∀ e, DataSet.named name s rows = .error e ↔
        ∃ before values after, rows = before ++ values :: after ∧
          (∀ earlier ∈ before, s.Takes earlier) ∧ s.Refuses name values e) ∧
      ∀ (domain : Domain) (v : Scalar), domain.accepts v.domain = true →
        ∃ w, v.cast domain = .ok w := by
  refine ⟨⟨?_, fun h => ?_⟩, ?_, fun e => ?_, fun domain v h => Scalar.exists_cast h⟩
  · rintro ⟨d, hd⟩ values hvalues
    obtain ⟨made, hmade, -⟩ := DataSet.named_eq_ok.1 hd
    obtain ⟨r, -, hr⟩ := exists_of_forall₂ hmade hvalues
    exact DataSet.exists_namedRow_iff.1 ⟨r, hr⟩
  · have hrow : ∀ values ∈ rows, ∃ r, DataSet.namedRow name s values = .ok r :=
      fun values hvalues => DataSet.exists_namedRow_iff.2 (h values hvalues)
    obtain ⟨made, hmade⟩ := exists_forall₂ hrow
    exact ⟨_, DataSet.named_eq_ok.2 ⟨made, hmade, rfl⟩⟩
  · intro d hd
    obtain ⟨made, hmade, rfl⟩ := DataSet.named_eq_ok.1 hd
    refine ⟨rfl, rfl, made, List.append_nil _, ?_⟩
    exact hmade.imp fun values r hr => DataSet.stores_of_namedRow hr
  · simp only [DataSet.named_eq_map, map_eq_error, mapM_eq_error, DataSet.exists_namedRow_iff,
      DataSet.namedRow_eq_error]

/-- The first row that is refused counts, and in it the first value. -/
example :
    let s : Schema := ⟨[⟨"k", .identifier, .string⟩, ⟨"x", .measure, .number⟩,
      ⟨"u", .attribute, .unknown⟩], by decide⟩
    DataSet.named "ds" s [[.string "a", .integer 1, .boolean true],
      [.null .unknown, .boolean true, .integer 1], [.integer 1, .string "b"]] =
        .error (.incompatibleDomain (.valueOf "x") .number .boolean) :=
  rfl

end DataCube
