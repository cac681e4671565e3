import DataCube.Aggregation
import DataCube.Window
import DataCube.Proofs.Rows
import DataCube.Proofs.Typing.Precision

/-!
# Precision of schemas

Two schemas with the same names and roles in the same order can differ in what they know of the
domains.  Names are looked up without regard to domains, so every schema that is derived from the
one that knows more is also derived from the one that knows less, and the derived schemas differ in
the same way.

* `Schema.Rel R`: the same names and roles in the same order, with the domains related by `R`.
* `Schema.Paired R s s'`: corresponding components of two such schemas.  Pairs are what lookups
  give, and two pairs agree on whether their components are equal.
* The lemmas `dominates_…` go through the derived schemas one by one.
-/

namespace DataCube

/-! ## Names -/

/-- A pattern refers to corresponding things where these have the same names. -/
theorem NamePattern.rel_find? {α β : Type} {P : α → β → Prop} {xs : List α} {ys : List β}
    {nameOf : α → String} {nameOf' : β → String} (p : NamePattern) (h : List.Forall₂ P xs ys)
    (hname : ∀ a b, P a b → nameOf a = nameOf' b) :
    Option.Rel P (p.find? nameOf xs) (p.find? nameOf' ys) := by
  cases p with
  | exact n => exact forall₂_find? h fun a b hab => by rw [hname a b hab]
  | ignoringCase n =>
    refine rel_or (forall₂_find? h fun a b hab => ?_) (forall₂_find? h fun a b hab => ?_)
    · rw [hname a b hab]
    · rw [hname a b hab]

/-! ## Components -/

/-- The same column, with the domains related. -/
structure Component.Rel (R : Domain → Domain → Prop) (c c' : Component) : Prop where
  name : c.name = c'.name
  role : c.role = c'.role
  domain : R c.domain c'.domain

namespace Schema

/-- The same names and roles in the same order, with the domains related. -/
def Rel (R : Domain → Domain → Prop) (s s' : Schema) : Prop :=
  List.Forall₂ (Component.Rel R) s.components s'.components

/-- Corresponding components of two schemas. -/
structure Paired (R : Domain → Domain → Prop) (s s' : Schema) (c c' : Component) : Prop where
  rel : Component.Rel R c c'
  left : c ∈ s.components
  right : c' ∈ s'.components

section Rel

variable {R : Domain → Domain → Prop} {s s' : Schema}

theorem rel_refl (hR : ∀ d, R d d) (s : Schema) : s.Rel R s :=
  List.forall₂_same.2 fun c _ => ⟨rfl, rfl, hR c.domain⟩

theorem eq_of_rel (h : s.Rel Eq s') : s = s' := by
  refine eq_of_components (List.forall₂_eq_eq_eq ▸ List.Forall₂.imp ?_ h)
  rintro ⟨n, r, d⟩ ⟨n', r', d'⟩ ⟨hn, hr, hd⟩
  cases hn
  cases hr
  cases hd
  rfl

theorem Rel.pairs (h : s.Rel R s') :
    List.Forall₂ (Paired R s s') s.components s'.components :=
  (forall₂_mem h).imp fun _ _ hc => ⟨hc.1, hc.2.1, hc.2.2⟩

/-- Corresponding components are equal together. -/
theorem Paired.eq_iff {c c' d d' : Component} (hc : Paired R s s' c c') (hd : Paired R s s' d d') :
    c = d ↔ c' = d' := by
  constructor
  · rintro rfl
    exact eq_of_name hc.right hd.right (hc.rel.name.symm.trans hd.rel.name)
  · rintro rfl
    exact eq_of_name hc.left hd.left (hc.rel.name.trans hd.rel.name.symm)

/-! ## Lookup -/

/-- A name is found in both schemas or in neither. -/
theorem component?_pair (h : s.Rel R s') (name : String) :
    s.component? name = none ∧ s'.component? name = none ∨
      ∃ c c', s.component? name = some c ∧ s'.component? name = some c' ∧ Paired R s s' c c' :=
  rel_cases (NamePattern.rel_find? _ h.pairs fun _ _ hc => hc.rel.name)

theorem component?_isSome (h : s.Rel R s') (name : String) :
    (s.component? name).isSome = (s'.component? name).isSome := by
  rcases component?_pair h name with ⟨hs, hs'⟩ | ⟨c, c', hs, hs', _⟩
  · rw [hs, hs']
  · rw [hs, hs']
    rfl

theorem dominates_require (h : s.Rel R s') (name : String) :
    Dominates (Paired R s s') (s.require name) (s'.require name) := by
  unfold require
  rcases component?_pair h name with ⟨hs, hs'⟩ | ⟨c, c', hs, hs', hc⟩
  · rw [hs']
    exact Dominates.of_error
  · rw [hs, hs']
    exact Dominates.ok hc

theorem dominates_requireOther (h : s.Rel R s') (use : ComponentUse) (name : String) :
    Dominates (Paired R s s') (s.requireOther use name) (s'.requireOther use name) := by
  refine Dominates.bind (dominates_require h name) fun c c' hc => ?_
  rw [hc.rel.role]
  split
  · exact Dominates.of_error
  · exact Dominates.ok hc

theorem dominates_requireIdentifier (h : s.Rel R s') (use : ComponentUse) (name : String) :
    Dominates (Paired R s s') (s.requireIdentifier use name) (s'.requireIdentifier use name) := by
  refine Dominates.bind (dominates_require h name) fun c c' hc => ?_
  rw [hc.rel.role]
  split
  · exact Dominates.ok hc
  · exact Dominates.of_error

/-- A list of names is looked up name by name. -/
theorem dominates_mapM_names {Q : Component → Component → Prop} {names : List String}
    {f f' : String → Except EvalError Component} (hf : ∀ name, Dominates Q (f name) (f' name)) :
    Dominates (List.Forall₂ Q) (names.mapM f) (names.mapM f') := by
  refine Dominates.mapM (List.forall₂_same.2 fun name _ => Eq.refl name) ?_
  rintro name _ rfl
  exact hf name

/-! ## Derived schemas -/

theorem rel_restrict {keep keep' : Component → Bool} (h : s.Rel R s')
    (hkeep : ∀ c c', Paired R s s' c c' → keep c = keep' c') :
    (s.restrict keep).Rel R (s'.restrict keep') :=
  (forall₂_filter h.pairs hkeep).imp fun _ _ hc => hc.rel

theorem rel_insert {c c' : Component} (h : s.Rel R s') (hc : Component.Rel R c c') :
    (s.insert c).Rel R (s'.insert c') := by
  have hany : s.components.any (·.name = c.name) = s'.components.any (·.name = c'.name) :=
    forall₂_any h fun d d' hd => by rw [hd.name, hc.name]
  show List.Forall₂ _ (insertIn c s.components) (insertIn c' s'.components)
  unfold insertIn
  rw [hany]
  split
  · rw [List.forall₂_map_left_iff, List.forall₂_map_right_iff]
    refine h.imp fun d d' hd => ?_
    rw [hd.name, hc.name]
    split
    · exact hc
    · exact hd
  · exact List.rel_append h (.cons hc .nil)

theorem names_eq {cs cs' : List Component} (h : List.Forall₂ (Component.Rel R) cs cs') :
    cs.map Component.name = cs'.map Component.name := by
  induction h with
  | nil => rfl
  | cons hc _ ih => rw [List.map_cons, List.map_cons, hc.name, ih]

theorem dominates_ofList {cs cs' : List Component} (h : List.Forall₂ (Component.Rel R) cs cs') :
    Dominates (Rel R) (ofList cs) (ofList cs') := by
  unfold ofList
  by_cases hnodup : (cs'.map Component.name).Nodup
  · rw [dif_pos hnodup, dif_pos (names_eq h ▸ hnodup)]
    exact Dominates.ok h
  · rw [dif_neg hnodup]
    exact Dominates.of_error

theorem dominates_membership (h : s.Rel R s') (name : String) :
    Dominates (Rel R) (s.membership name) (s'.membership name) := by
  refine Dominates.bind (dominates_requireOther h .membership name) fun c c' hc => ?_
  refine Dominates.ok (rel_insert (rel_restrict h fun d d' hd => ?_) ?_)
  · rw [hd.rel.role]
  · exact ⟨hc.rel.name, rfl, hc.rel.domain⟩

theorem dominates_keep (h : s.Rel R s') (names : List String) :
    Dominates (Rel R) (s.keep names) (s'.keep names) := by
  refine Dominates.bind (dominates_mapM_names (dominates_requireOther h .keep))
    fun kept kept' hkept => ?_
  refine Dominates.ok (rel_restrict h fun d d' hd => ?_)
  rw [hd.rel.role, forall₂_any hkept fun k k' hk => by rw [hk.rel.name, hd.rel.name]]

theorem dominates_drop (h : s.Rel R s') (names : List String) :
    Dominates (Rel R) (s.drop names) (s'.drop names) := by
  refine Dominates.bind (dominates_mapM_names (dominates_requireOther h .drop))
    fun dropped dropped' hdropped => ?_
  refine Dominates.ok (rel_restrict h fun d d' hd => ?_)
  rw [forall₂_any hdropped fun k k' hk => by rw [hk.rel.name, hd.rel.name]]

theorem dominates_withMeasure {d d' : Domain} (h : s.Rel R s') (name : String) (hd : R d d') :
    Dominates (Rel R) (s.withMeasure name d) (s'.withMeasure name d') := by
  unfold withMeasure
  rcases component?_pair h name with ⟨hs, hs'⟩ | ⟨c, c', hs, hs', hc⟩
  · rw [hs, hs']
    exact Dominates.ok (rel_insert h ⟨rfl, rfl, hd⟩)
  · simp only [hs, hs', hc.rel.role]
    split
    · exact Dominates.of_error
    · exact Dominates.ok (rel_insert h ⟨hc.rel.name, rfl, hd⟩)

theorem dominates_mapMeasures {domainOf domainOf' : Component → Except EvalError Domain}
    (h : s.Rel R s')
    (hdomain : ∀ c c', Component.Rel R c c' → Dominates R (domainOf c) (domainOf' c')) :
    Dominates (Rel R) (s.mapMeasures domainOf) (s'.mapMeasures domainOf') := by
  refine Dominates.bind (Dominates.mapM h fun c c' hc => ?_) fun cs cs' hcs => dominates_ofList hcs
  rw [hc.role]
  split
  · exact Dominates.map (hdomain c c' hc) fun d d' hd => ⟨hc.name, hc.role, hd⟩
  · exact Dominates.ok hc

theorem rel_measures (h : s.Rel R s') :
    List.Forall₂ (Component.Rel R) s.measures s'.measures :=
  forall₂_filter h fun c c' hc => by rw [hc.role]

end Rel

end Schema

/-! ## Grouping and windows -/

section Keys

variable {R : Domain → Domain → Prop} {s s' : Schema}

theorem dominates_groupKeys? (h : s.Rel R s') (names : List String) :
    Dominates (List.Forall₂ (Schema.Paired R s s')) (Statistic.groupKeys? s names)
      (Statistic.groupKeys? s' names) :=
  Schema.dominates_mapM_names (Schema.dominates_requireIdentifier h .groupBy)

/-- Keys contain corresponding components together. -/
theorem contains_paired {keys keys' : List Component}
    (hkeys : List.Forall₂ (Schema.Paired R s s') keys keys') {c c' : Component}
    (hc : Schema.Paired R s s' c c') : keys.contains c = keys'.contains c' := by
  rw [List.contains_eq_any_beq, List.contains_eq_any_beq]
  refine forall₂_any hkeys fun k k' hk => ?_
  rw [Bool.eq_iff_iff, beq_iff_eq, beq_iff_eq]
  exact hc.eq_iff hk

theorem dominates_aggregateSchema (statistic : Statistic)
    (hstatistic : ∀ {d d'}, R d d' →
      Dominates R (statistic.outputDomain? d) (statistic.outputDomain? d'))
    (h : s.Rel R s') (groupBy : List String) :
    Dominates (Schema.Rel R) (statistic.outputSchema s groupBy)
      (statistic.outputSchema s' groupBy) := by
  refine Dominates.bind (dominates_groupKeys? h groupBy) fun keys keys' hkeys => ?_
  refine Schema.dominates_mapMeasures (Schema.rel_restrict h fun c c' hc => ?_) ?_
  · rw [contains_paired hkeys hc, hc.rel.role]
  · exact fun c c' hc => hstatistic hc.domain

/-- A window over one schema is a window over the other. -/
theorem dominates_resolve? (h : s.Rel R s') (window : WindowSpec) (defaults : WindowDefaults) :
    Dominates (fun _ _ => True) (Window.resolve? s window defaults)
      (Window.resolve? s' window defaults) := by
  let Keyed (k k' : Component × SortDirection) : Prop := Schema.Paired R s s' k.1 k'.1
  have hsort : Dominates (List.Forall₂ Keyed) (Window.sortKeys? s window.orderBy)
      (Window.sortKeys? s' window.orderBy) := by
    refine Dominates.mapM (List.forall₂_same.2 fun item _ => Eq.refl item) ?_
    rintro item _ rfl
    exact Dominates.map (Schema.dominates_require h item.name) fun c c' hc => hc
  refine Dominates.bind hsort fun given given' hgiven => ?_
  have hpartition (name : String) : Dominates (fun _ _ => True)
      (Window.partitionKey? s given name) (Window.partitionKey? s' given' name) := by
    refine Dominates.bind (Schema.dominates_requireIdentifier h .partitionBy name) ?_
    intro c c' hc
    have hany : (given.any fun k => decide (k.1 = c)) = given'.any fun k => decide (k.1 = c') :=
      forall₂_any hgiven fun k k' hk => decide_eq_decide.2 (hk.eq_iff hc)
    rw [hany]
    split
    · exact Dominates.of_error
    · exact Dominates.ok trivial
  exact Dominates.bind (Schema.dominates_mapM_names hpartition) fun _ _ _ => Dominates.ok trivial

theorem dominates_analyticSchema (r : Reducer)
    (hr : ∀ {d d'}, R d d' → Dominates R (r.outputDomain? d) (r.outputDomain? d'))
    (h : s.Rel R s') (window : WindowSpec) :
    Dominates (Schema.Rel R) (r.outputSchema s window) (r.outputSchema s' window) := by
  refine Dominates.bind (dominates_resolve? h window .whole) fun _ _ _ => ?_
  exact Schema.dominates_mapMeasures h fun c c' hc => hr hc.domain

end Keys

end DataCube
