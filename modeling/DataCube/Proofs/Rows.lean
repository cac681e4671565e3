import Mathlib.Data.List.Nodup
import DataCube.Row
import DataCube.Proofs.Outcome
import DataCube.Proofs.Typing.Precision

/-!
# Rows that fit their schema

A row is read by place, and the places come from a schema.  A row fits if there is one value for
every component, of a domain that goes with the component, so every place that the schema gives
holds the value of the component asked for.

* `Row.Fits S`: one value for every component, with `S` between the two domains.
* `Row.WellFormed`: the values have the domains of their components, where these are known.
* `Schema.positionOf?_of_mem`, `Row.Fits.get?`, `Row.Fits.lookup?`: reading by name.
* `Draft.build_eq_ok`, `Draft.exists_build`, `Draft.get?_build`: when a draft makes a row, and of
  which values.
* `Draft.wellFormed_build`: every row that is built from a draft is well formed.
-/

namespace DataCube

/-! ## Places -/

/-- A pattern refers to nothing but the things it is asked about. -/
theorem NamePattern.mem_of_find? {α : Type} {p : NamePattern} {nameOf : α → String} {xs : List α}
    {x : α} (h : p.find? nameOf xs = some x) : x ∈ xs := by
  cases p with
  | exact n => exact List.mem_of_find?_eq_some h
  | ignoringCase n =>
    simp only [find?, Option.or_eq_some_iff] at h
    rcases h with h | ⟨-, h⟩
    · exact List.mem_of_find?_eq_some h
    · exact List.mem_of_find?_eq_some h

namespace Schema

variable {s : Schema}

/-- Names tell components apart. -/
theorem eq_of_name {c d : Component} (hc : c ∈ s.components) (hd : d ∈ s.components)
    (h : c.name = d.name) : c = d :=
  List.inj_on_of_nodup_map s.names_nodup hc hd h

theorem eq_of_components {s' : Schema} (h : s.components = s'.components) : s = s' := by
  obtain ⟨components, nodup⟩ := s
  cases h
  rfl

/-- The component at a place that was found by name has this name. -/
theorem getElem?_of_positionOf? {name : String} {i : Nat} (h : s.positionOf? name = some i) :
    ∃ c ∈ s.components, s.components[i]? = some c ∧ c.name = name := by
  unfold positionOf? at h
  obtain ⟨hi, hname, -⟩ := List.findIdx?_eq_some_iff_getElem.1 h
  exact ⟨s.components[i], List.getElem_mem hi, List.getElem?_eq_getElem hi, of_decide_eq_true hname⟩

/-- Every component is found, in its place, under its name. -/
theorem positionOf?_of_mem {c : Component} (hc : c ∈ s.components) :
    ∃ i, s.positionOf? c.name = some i ∧ s.components[i]? = some c := by
  cases h : s.positionOf? c.name with
  | none =>
    have hnone := List.findIdx?_eq_none_iff.1 h c hc
    rw [decide_eq_true rfl] at hnone
    nomatch hnone
  | some i =>
    obtain ⟨d, hd, hi, hname⟩ := getElem?_of_positionOf? h
    rw [eq_of_name hd hc hname] at hi
    exact ⟨i, rfl, hi⟩

theorem position?_of_mem {c : Component} (hc : c ∈ s.components) :
    ∃ i, s.position? c = some i ∧ s.components[i]? = some c := by
  obtain ⟨i, hi, hget⟩ := positionOf?_of_mem hc
  refine ⟨i, ?_, hget⟩
  unfold position?
  rw [hi, Option.filter_some, if_pos (decide_eq_true hget)]

/-- What a name refers to is a component. -/
theorem mem_of_component? {name : String} {c : Component} (h : s.component? name = some c) :
    c ∈ s.components :=
  NamePattern.mem_of_find? h

end Schema

/-! ## Fitting -/

/-- One value for every component, with the domains related. -/
def Row.Fits (S : Domain → Domain → Prop) (r : Row) : Prop :=
  List.Forall₂ (fun c v => S c.domain v.domain) r.schema.components r.values

/-- Every value has the domain of its component, unless that is unknown. -/
def Row.WellFormed (r : Row) : Prop := r.Fits Domain.Describes

namespace Row

variable {S : Domain → Domain → Prop} {r : Row}

theorem Fits.mono {S' : Domain → Domain → Prop} (h : r.Fits S) (hS : ∀ d d', S d d' → S' d d') :
    r.Fits S' := by
  unfold Fits at h ⊢
  exact h.imp fun _ _ hcv => hS _ _ hcv

theorem Fits.length (h : r.Fits S) : r.values.length = r.schema.size :=
  (List.Forall₂.length_eq h).symm

/-- The value in the place of a component. -/
theorem Fits.getElem? (h : r.Fits S) {i : Nat} {c : Component}
    (hc : r.schema.components[i]? = some c) :
    ∃ v, r.values[i]? = some v ∧ (c, v) ∈ r.entries ∧ S c.domain v.domain := by
  obtain ⟨hi, hget⟩ := List.getElem?_eq_some_iff.1 hc
  subst hget
  have hlength : r.schema.components.length = r.values.length := List.Forall₂.length_eq h
  have hi' : i < r.values.length := hlength ▸ hi
  have hv : r.values[i]? = some r.values[i] := List.getElem?_eq_getElem hi'
  refine ⟨r.values[i], hv, ?_, (List.forall₂_iff_get.1 h).2 i hi hi'⟩
  exact List.mem_of_getElem? (List.getElem?_zip_eq_some.2 ⟨hc, hv⟩)

/-- A component is read by its name. -/
theorem Fits.get? (h : r.Fits S) {c : Component} (hc : c ∈ r.schema.components) :
    ∃ v, r.get? c.name = some v ∧ (c, v) ∈ r.entries ∧ S c.domain v.domain := by
  obtain ⟨i, hi, hget⟩ := Schema.positionOf?_of_mem hc
  obtain ⟨v, hv, hmem, hS⟩ := h.getElem? hget
  refine ⟨v, ?_, hmem, hS⟩
  rw [Row.get?, hi]
  exact hv

/-- What a name refers to is read under the quoting rule. -/
theorem Fits.lookup? (h : r.Fits S) (name : String) :
    r.schema.component? name = none ∧ r.lookup? name = none ∨
      ∃ c v, r.schema.component? name = some c ∧ r.lookup? name = some v ∧
        (c, v) ∈ r.entries ∧ S c.domain v.domain := by
  unfold Row.lookup?
  cases hc : r.schema.component? name with
  | none => exact Or.inl ⟨rfl, rfl⟩
  | some c =>
    obtain ⟨v, hv, hmem, hS⟩ := h.get? (Schema.mem_of_component? hc)
    exact Or.inr ⟨c, v, rfl, hv, hmem, hS⟩

end Row

/-! ## Building -/

/-- A cast gives a value of the domain it casts to. -/
theorem Scalar.describes_cast {v w : Scalar} {target : Domain} (h : v.cast target = .ok w) :
    target.Describes w.domain := by
  unfold cast at h
  split at h
  · exact Or.inr rfl
  · exact Or.inl (by rw [← Except.ok.inj h]; rfl)
  · exact Or.inr rfl
  · exact Or.inl (by rw [← Except.ok.inj h]; rfl)
  · split at h
    · exact Or.inl (by rw [← Except.ok.inj h]; rfl)
    · nomatch h
  · split at h
    · rename_i heq
      rw [← Except.ok.inj h]
      exact Or.inl heq.symm
    · nomatch h

theorem Component.describes_store {c : Component} {v w : Scalar} (h : c.store v = .ok w) :
    c.domain.Describes w.domain := by
  unfold Component.store at h
  split at h
  · rename_i heq
    rw [← Except.ok.inj h]
    exact Or.inl heq.symm
  · split at h
    · nomatch h
    · exact Scalar.describes_cast h

/-- What goes with a component is taken as it is. -/
theorem Component.store_of_describes {c : Component} {v : Scalar}
    (h : c.domain.Describes v.domain) : c.store v = .ok v := by
  unfold Component.store
  rcases h with heq | hunknown
  · rw [if_pos heq.symm]
  · cases v <;> simp [hunknown, Scalar.cast]

namespace Draft

variable {d : Draft} {s : Schema} {lineage : Lineage} {r : Row}

theorem build_eq_ok :
    d.build s lineage = .ok r ↔
      r.schema = s ∧ r.lineage = lineage ∧
        List.Forall₂ (fun c v => d.valueFor s c = .ok v) s.components r.values := by
  obtain ⟨schema, values, lineage'⟩ := r
  unfold build
  rw [bind_eq_ok]
  constructor
  · rintro ⟨vs, hvs, h⟩
    cases Except.ok.inj h
    exact ⟨rfl, rfl, mapM_eq_ok.1 hvs⟩
  · rintro ⟨rfl, rfl, h⟩
    exact ⟨values, mapM_eq_ok.2 h, rfl⟩

/-- The lineage has no part in the values of a row. -/
theorem values_build {lineage' : Lineage} {r' : Row} (h : d.build s lineage = .ok r)
    (h' : d.build s lineage' = .ok r') : r.schema = r'.schema ∧ r.values = r'.values := by
  obtain ⟨hschema, -, hvalues⟩ := build_eq_ok.1 h
  obtain ⟨hschema', -, hvalues'⟩ := build_eq_ok.1 h'
  exact ⟨hschema.trans hschema'.symm, List.right_unique_forall₂'
    (fun _ _ _ hv hv' => Except.ok.inj (hv.symm.trans hv')) hvalues hvalues'⟩

/-- A row is built if there is a value for every component. -/
theorem exists_build (lineage : Lineage)
    (h : ∀ c ∈ s.components, ∃ v, d.valueFor s c = .ok v) : ∃ r, d.build s lineage = .ok r := by
  obtain ⟨values, hvalues⟩ := exists_mapM_eq_ok h
  exact ⟨⟨s, values, lineage⟩, build_eq_ok.2 ⟨rfl, rfl, mapM_eq_ok.1 hvalues⟩⟩

/-- A row that is built has these values under the names of the components. -/
theorem get?_build (h : d.build s lineage = .ok r) {c : Component} (hc : c ∈ s.components) :
    ∃ v, d.valueFor s c = .ok v ∧ r.get? c.name = some v := by
  obtain ⟨rfl, -, hvalues⟩ := build_eq_ok.1 h
  obtain ⟨i, hi, hget⟩ := Schema.positionOf?_of_mem hc
  have hrel := forall₂_getElem? hvalues i
  rw [hget] at hrel
  cases hv : r.values[i]? with
  | none =>
    rw [hv] at hrel
    nomatch hrel
  | some v =>
    rw [hv] at hrel
    cases hrel with
    | some hvalue => exact ⟨v, hvalue, by rw [Row.get?, hi]; exact hv⟩

/-- Whatever a draft holds, a row that is built from it has the values its schema asks for. -/
theorem wellFormed_build (h : d.build s lineage = .ok r) : r.schema = s ∧ r.WellFormed := by
  obtain ⟨rfl, -, h⟩ := build_eq_ok.1 h
  refine ⟨rfl, h.imp fun c v hv => ?_⟩
  unfold valueFor at hv
  split at hv
  · exact Component.describes_store hv
  · nomatch hv

end Draft

end DataCube
