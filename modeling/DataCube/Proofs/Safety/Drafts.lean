import DataCube.Proofs.Rows

/-!
# Drafts that can be built

A draft makes a row of a schema if it has a value for every component that the component accepts.
Nearly every draft is put together from the entries of a row, so that it is enough to know what
those are.

* `Domain.exists_cast`, `Scalar.exists_cast`: what a domain accepts can be cast to it.
* `Component.store_of_accepts`, `Component.store_of_not_accepts`: what a component makes of a value.
* `Draft.Supplies`: the draft has a value that a component accepts.
* `Draft.outcome_build`: building a row fails where one of its values does, so a draft that
  supplies every component makes a row (`Draft.outcome_of_supplies`).
* `Draft.mismatch_build`: otherwise a value is missing, or has the wrong domain.
* `Row.Exact`: a row all of whose values have the domains of their components.
-/

namespace DataCube

/-! ## Fitting values -/

theorem Scalar.cast_self (v : Scalar) : v.cast v.domain = .ok v := by
  cases v with
  | null d => cases d <;> rfl
  | _ => rfl

/-- Nothing is converted where any domain will do. -/
theorem Scalar.cast_unknown (v : Scalar) : v.cast .unknown = .ok v := by
  cases v <;> rfl

/-- Every null can be cast, and then has the domain. -/
theorem Scalar.cast_null (found : Domain) {d : Domain} (hd : d ≠ .unknown) :
    (Scalar.null found).cast d = .ok (.null d) := by
  cases d with
  | unknown => exact absurd rfl hd
  | _ => rfl

/-- What a known domain accepts can be cast to it, and then has the domain. -/
theorem Domain.exists_cast {d : Domain} {v : Scalar} (h : d.accepts v.domain = true)
    (hd : d ≠ .unknown) : ∃ w, v.cast d = .ok w ∧ w.domain = d := by
  by_cases heq : v.domain = d
  · subst heq
    exact ⟨v, v.cast_self, rfl⟩
  · cases v with
    | null found => exact ⟨.null d, Scalar.cast_null found hd, rfl⟩
    | integer i =>
      cases d with
      | number => exact ⟨_, rfl, rfl⟩
      | unknown => exact absurd rfl hd
      | integer => exact absurd rfl heq
      | _ => nomatch h
    | _ =>
      cases d with
      | unknown => exact absurd rfl hd
      | _ => first | exact absurd rfl heq | nomatch h

/-- What a domain accepts can be cast to it, also if it is unknown. -/
theorem Scalar.exists_cast {d : Domain} {v : Scalar} (h : d.accepts v.domain = true) :
    ∃ w, v.cast d = .ok w := by
  by_cases hd : d = .unknown
  · rw [hd]
    exact ⟨v, v.cast_unknown⟩
  · exact (Domain.exists_cast h hd).imp fun _ hw => hw.1

namespace Component

variable {c : Component} {v w : Scalar}

/-- What a component accepts is cast to its domain. -/
theorem store_of_accepts (h : c.domain.accepts v.domain = true) : c.store v = v.cast c.domain := by
  unfold Component.store
  by_cases heq : v.domain = c.domain
  · rw [if_pos heq, ← heq, v.cast_self]
  · rw [if_neg heq, h, Bool.not_true, if_neg Bool.false_ne_true]

/-- What a component does not accept is refused as a value for it. -/
theorem store_of_not_accepts (h : c.domain.accepts v.domain = false) :
    c.store v = .error (.incompatibleDomain (.valueOf c.name) c.domain v.domain) := by
  have hne : v.domain ≠ c.domain := by
    intro heq
    rw [heq, Domain.accepts_self] at h
    nomatch h
  unfold Component.store
  rw [if_neg hne, h, Bool.not_false, if_pos rfl]

/-- A component takes what its domain accepts. -/
theorem exists_store (h : c.domain.accepts v.domain = true) : ∃ w, c.store v = .ok w := by
  rw [store_of_accepts h]
  exact Scalar.exists_cast h

/-- What a component takes is a cast to its domain. -/
theorem cast_of_store (h : c.store v = .ok w) : v.cast c.domain = .ok w := by
  cases haccepts : c.domain.accepts v.domain with
  | true => rwa [store_of_accepts haccepts] at h
  | false =>
    rw [store_of_not_accepts haccepts] at h
    nomatch h

end Component

/-- A domain other than the one asked for, or a component that is not there. -/
def EvalError.IsMismatch : EvalError → Prop
  | .incompatibleDomain _ _ _ => True
  | .missingComponent _ _ => True
  | _ => False

/-- Casts only ever fail for the domains. -/
theorem Scalar.outcome_cast (v : Scalar) (target : Domain) :
    Outcome EvalError.IsMismatch (fun _ => True) (v.cast target) := by
  unfold cast
  split
  · trivial
  · trivial
  · trivial
  · trivial
  · split <;> trivial
  · split <;> trivial

theorem Component.outcome_store (c : Component) (v : Scalar) :
    Outcome EvalError.IsMismatch (fun _ => True) (c.store v) := by
  unfold Component.store
  split
  · trivial
  · split
    · trivial
    · exact v.outcome_cast c.domain

/-! ## Lookup -/

namespace Draft

variable {d : Draft} {name : String}

theorem setAll_cons (d : Draft) (e : Component × Scalar) (entries : List (Component × Scalar)) :
    d.setAll (e :: entries) = (d.set e.1.name e.2).setAll entries := rfl

/-- A name has one of the values set for it. -/
theorem get?_setAll {entries : List (Component × Scalar)} {P : Scalar → Prop}
    (hset : (∃ v, d.get? name = some v ∧ P v) ∨ ∃ e ∈ entries, e.1.name = name)
    (hP : ∀ e ∈ entries, e.1.name = name → P e.2) :
    ∃ v, (d.setAll entries).get? name = some v ∧ P v := by
  induction entries generalizing d with
  | nil =>
    rcases hset with h | ⟨e, he, -⟩
    · exact h
    · nomatch he
  | cons e entries ih =>
    rw [setAll_cons]
    refine ih ?_ fun e' he' => hP e' (List.mem_cons_of_mem e he')
    by_cases he : e.1.name = name
    · refine Or.inl ⟨e.2, ?_, hP e List.mem_cons_self he⟩
      rw [get?_set, if_pos he]
    · rcases hset with ⟨v, hv, hPv⟩ | ⟨e', he', hname⟩
      · refine Or.inl ⟨v, ?_, hPv⟩
        rw [get?_set, if_neg he, hv]
      · rcases List.mem_cons.1 he' with rfl | he'
        · exact absurd hname he
        · exact Or.inr ⟨e', he', hname⟩

/-- A name has the value that every entry of that name has. -/
theorem get?_setAll_same {c : Component} {entries : List (Component × Scalar)} {v : Scalar}
    (hmem : (c, v) ∈ entries) (hsame : ∀ e ∈ entries, e.1.name = c.name → e.2 = v) :
    (d.setAll entries).get? c.name = some v := by
  obtain ⟨w, hw, rfl⟩ := get?_setAll (d := d) (P := fun w => w = v)
    (Or.inr ⟨(c, v), hmem, rfl⟩) hsame
  exact hw

/-! ## Building -/

variable {s : Schema}

/-- The draft has a value that the component accepts. -/
def Supplies (d : Draft) (c : Component) : Prop :=
  ∃ v, d.get? c.name = some v ∧ c.domain.accepts v.domain = true

theorem supplies_set {c : Component} {v : Scalar} (h : name ≠ c.name → d.Supplies c)
    (hv : name = c.name → c.domain.accepts v.domain = true) : (d.set name v).Supplies c := by
  unfold Supplies
  rw [get?_set]
  by_cases hname : name = c.name
  · rw [if_pos hname]
    exact ⟨v, rfl, hv hname⟩
  · rw [if_neg hname]
    exact h hname

/-- Entries supply what they have a name of, and leave the rest as it is. -/
theorem supplies_setAll {c : Component} {entries : List (Component × Scalar)}
    (h : d.Supplies c ∨ ∃ e ∈ entries, e.1.name = c.name)
    (hentries : ∀ e ∈ entries, e.1.name = c.name → c.domain.accepts e.2.domain = true) :
    (d.setAll entries).Supplies c :=
  get?_setAll h hentries

variable {fails : EvalError → Prop}

/-- Building a row fails where one of its values does. -/
theorem outcome_build (lineage : Lineage)
    (h : ∀ c ∈ s.components, Outcome fails (fun _ => True) (d.valueFor s c)) :
    Outcome fails (fun _ => True) (d.build s lineage) :=
  Outcome.bind (Outcome.mapM (R := fun _ _ => True) h) fun _ _ _ => trivial

theorem Supplies.outcome_valueFor {c : Component} (h : d.Supplies c) :
    Outcome fails (fun _ => True) (d.valueFor s c) := by
  obtain ⟨v, hv, haccepts⟩ := h
  obtain ⟨w, hw⟩ := Component.exists_store haccepts
  unfold valueFor
  rw [hv]
  show Outcome fails _ (c.store v)
  rw [hw]
  trivial

/-- A draft that supplies every component makes a row. -/
theorem outcome_of_supplies (lineage : Lineage) (h : ∀ c ∈ s.components, d.Supplies c) :
    Outcome fails (fun _ => True) (d.build s lineage) :=
  outcome_build lineage fun c hc => (h c hc).outcome_valueFor

/-- Whatever a draft holds, building a row from it only ever fails for the domains, or for a value
that is missing. -/
theorem mismatch_build (d : Draft) (s : Schema) (lineage : Lineage) :
    Outcome EvalError.IsMismatch (fun _ => True) (d.build s lineage) := by
  refine outcome_build lineage fun c _ => ?_
  unfold valueFor
  split
  · exact c.outcome_store _
  · trivial

end Draft

/-! ## Exact rows -/

/-- Every value has the domain of its component. -/
def Row.Exact (r : Row) : Prop := r.Fits Eq

theorem Row.Fits.entry {S : Domain → Domain → Prop} {r : Row} (h : r.Fits S)
    {e : Component × Scalar} (he : e ∈ r.entries) :
    e.1 ∈ r.schema.components ∧ S e.1.domain e.2.domain := by
  obtain ⟨c, v⟩ := e
  obtain ⟨i, hi⟩ := List.mem_iff_getElem?.1 he
  obtain ⟨hc, hv⟩ := List.getElem?_zip_eq_some.1 hi
  obtain ⟨v', hv', -, hS⟩ := h.getElem? hc
  rw [hv] at hv'
  cases hv'
  exact ⟨List.mem_of_getElem? hc, hS⟩

/-- Where all domains are known, a well-formed row is exact. -/
theorem Row.WellFormed.exact {r : Row} (h : r.WellFormed)
    (hknown : ∀ c ∈ r.schema.components, c.domain ≠ .unknown) : r.Exact := by
  refine (forall₂_mem h).imp fun c v hcv => ?_
  exact hcv.1.resolve_right (hknown c hcv.2.1)

namespace Row

variable {r : Row} {c : Component}

/-- A component accepts whatever an exact row has under its name. -/
theorem Exact.accepts (h : r.Exact) (hc : c ∈ r.schema.components) {e : Component × Scalar}
    (he : e ∈ r.entries) (hname : e.1.name = c.name) : c.domain.accepts e.2.domain = true := by
  obtain ⟨hmem, hdomain⟩ := Fits.entry h he
  rw [← hdomain, Schema.eq_of_name hmem hc hname]
  exact Domain.accepts_self c.domain

theorem Exact.exists_entry (h : r.Exact) (hc : c ∈ r.schema.components) :
    ∃ v, r.get? c.name = some v ∧ (c, v) ∈ r.entries ∧ v.domain = c.domain := by
  obtain ⟨v, hv, hmem, hdomain⟩ := Fits.get? h hc
  exact ⟨v, hv, hmem, hdomain.symm⟩

/-- What is read under the name of a component has its domain. -/
theorem Exact.domain_of_get? (h : r.Exact) (hc : c ∈ r.schema.components) {v : Scalar}
    (hv : r.get? c.name = some v) : v.domain = c.domain := by
  obtain ⟨w, hw, -, hdomain⟩ := Fits.get? h hc
  rw [hv] at hw
  cases hw
  exact hdomain.symm

theorem mem_entriesWith {role : Role} {e : Component × Scalar} :
    e ∈ r.entriesWith role ↔ e ∈ r.entries ∧ e.1.role = role := by
  rw [entriesWith, List.mem_filter, decide_eq_true_iff]

end Row

end DataCube
