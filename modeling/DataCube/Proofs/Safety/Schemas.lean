import DataCube.Proofs.OperatorResults
import DataCube.Proofs.RowStreams
import DataCube.Proofs.Safety.Drafts
import DataCube.Proofs.Typing.Schemas

/-!
# Schemas of known domains

What the derived schemas are made of, and that their domains are known where those they come from
are.  The one thing that is not settled when a schema is derived is how a name is stored: a name
that is normalized when a measure is stored under it need not refer to the measure afterwards.

* `Tolerance`: the errors that are let pass, and the names that components are stored under.
* `Schema.Sound t`: all domains are known, and all names are among those.
* `FindsItself`: a new measure is found under the name it was given.
* `Schema.Refers`, `Schema.component?_eq_some_iff`: what a name refers to.
* `Schema.membership_eq_ok`, `withMeasure_eq_ok`, `mapMeasures_eq_ok`, …: the derived schemas.
-/

namespace DataCube

/-- The errors that are let pass, overflows among them, and the names that components may be stored
under. -/
structure Tolerance where
  error : EvalError → Prop
  name : String → Prop
  overflow : ∀ e : EvalError, e.IsOverflow → error e

/-! ## Names -/

namespace NamePattern

variable {α : Type} {p : NamePattern} {nameOf : α → String} {xs : List α}

theorem find?_eq_none_iff : p.find? nameOf xs = none ↔ ∀ x ∈ xs, p.accepts (nameOf x) = false := by
  cases p with
  | exact n =>
    simp only [find?, accepts, List.find?_eq_none, decide_eq_true_iff, decide_eq_false_iff_not]
    exact forall₂_congr fun x _ => not_congr eq_comm
  | ignoringCase n =>
    simp only [find?, accepts, Option.or_eq_none_iff, List.find?_eq_none, decide_eq_true_iff,
      decide_eq_false_iff_not]
    constructor
    · exact fun h => h.2
    · exact fun h => ⟨fun x hx heq => h x hx (by rw [heq]), h⟩

theorem accepts_of_find? {x : α} (h : p.find? nameOf xs = some x) :
    p.accepts (nameOf x) = true := by
  cases p with
  | exact n =>
    have hname := List.find?_some (show xs.find? (fun x => nameOf x = n) = some x from h)
    exact decide_eq_true (of_decide_eq_true hname).symm
  | ignoringCase n =>
    simp only [find?, Option.or_eq_some_iff] at h
    rcases h with h | ⟨-, h⟩
    · have hname := List.find?_some h
      exact decide_eq_true (by rw [of_decide_eq_true hname])
    · have haccepts := List.find?_some h
      exact haccepts

/-- Things that keep their names are found under them. -/
theorem find?_map {f : α → α} (hf : ∀ x, nameOf (f x) = nameOf x) :
    p.find? nameOf (xs.map f) = (p.find? nameOf xs).map f := by
  cases p with
  | exact n => simp only [find?, List.find?_map, Function.comp_def, hf]
  | ignoringCase n => simp only [find?, List.find?_map, Function.comp_def, hf, Option.map_or]

end NamePattern

/-- The name refers to what is newly stored under it. -/
def FindsItself (name : String) : Prop :=
  (NamePattern.ofName name).accepts (normalizeName name) = true

namespace Schema

variable {s s' : Schema} {name : String}

/-- A name refers to what is spelled like it, or else, out of quotes, to the first component that
differs from it in letter case only. -/
inductive Refers (s : Schema) (name : String) (c : Component) : Prop
  | spelled (hmem : c ∈ s.components) (hname : c.name = (NamePattern.ofName name).name)
  | first (hplain : NamePattern.ofName name = .ignoringCase name)
      (hspelled : ∀ d ∈ s.components, d.name ≠ name)
      (hfirst : s.components.find? (fun d => (NamePattern.ofName name).accepts d.name) = some c)

theorem find?_spelled {c : Component} : s.components.find? (·.name = name) = some c ↔
    c ∈ s.components ∧ c.name = name := by
  constructor
  · intro h
    have hname := List.find?_some h
    exact ⟨List.mem_of_find?_eq_some h, of_decide_eq_true hname⟩
  · rintro ⟨hmem, hname⟩
    cases hfind : s.components.find? (·.name = name) with
    | none => exact absurd (decide_eq_true hname) (List.find?_eq_none.1 hfind c hmem)
    | some d =>
      have hd := List.find?_some hfind
      rw [eq_of_name (List.mem_of_find?_eq_some hfind) hmem
        ((of_decide_eq_true hd).trans hname.symm)]

theorem component?_eq_some_iff {c : Component} :
    s.component? name = some c ↔ s.Refers name c := by
  have hpattern : NamePattern.ofName name = .exact (NamePattern.ofName name).name ∨
      NamePattern.ofName name = .ignoringCase name := by
    unfold NamePattern.ofName
    split
    · exact Or.inl rfl
    · exact Or.inr rfl
  unfold component?
  rcases hpattern with hquoted | hplain
  · rw [hquoted, NamePattern.find?, find?_spelled]
    constructor
    · exact fun h => .spelled h.1 h.2
    · rintro (⟨hmem, hname⟩ | ⟨hplain, -, -⟩)
      · exact ⟨hmem, hname⟩
      · rw [hquoted] at hplain
        cases hplain
  · rw [hplain, NamePattern.find?, Option.or_eq_some_iff, find?_spelled, List.find?_eq_none]
    constructor
    · rintro (⟨hmem, hname⟩ | ⟨hnone, hfirst⟩)
      · exact .spelled hmem (by rw [hplain, hname]; rfl)
      · refine .first hplain (fun d hd hname => hnone d hd (decide_eq_true hname)) ?_
        rw [hplain]
        exact hfirst
    · rintro (⟨hmem, hname⟩ | ⟨-, hspelled, hfirst⟩)
      · rw [hplain] at hname
        exact Or.inl ⟨hmem, hname⟩
      · rw [hplain] at hfirst
        exact Or.inr ⟨fun d hd hname => hspelled d hd (of_decide_eq_true hname), hfirst⟩

/-- A component whose stored name has no quotes is found under its stored name. -/
theorem require_of_unquoted {c : Component} (hc : c ∈ s.components)
    (h : NamePattern.unquote? c.name = none) : s.require c.name = .ok c := by
  have hpattern : NamePattern.ofName c.name = .ignoringCase c.name := by
    unfold NamePattern.ofName
    rw [h]
  have hfound : s.component? c.name = some c :=
    component?_eq_some_iff.2 (.spelled hc (by rw [hpattern]; rfl))
  unfold require
  rw [hfound]

theorem mismatch_require (s : Schema) (name : String) :
    Outcome EvalError.IsMismatch (fun _ => True) (s.require name) := by
  unfold require
  split
  · trivial
  · trivial

theorem require_eq_ok {c : Component} : s.require name = .ok c ↔ s.component? name = some c := by
  unfold require
  cases s.component? name with
  | none => exact ⟨fun h => (nomatch h), fun h => (nomatch h)⟩
  | some d =>
    constructor
    · exact fun h => congrArg some (Except.ok.inj h)
    · exact fun h => congrArg Except.ok (Option.some.inj h)

theorem requireIdentifier_eq_ok {use : ComponentUse} {c : Component} :
    s.requireIdentifier use name = .ok c ↔ s.component? name = some c ∧ c.role = .identifier := by
  unfold requireIdentifier
  rw [bind_eq_ok]
  constructor
  · rintro ⟨c', hc', h⟩
    split at h
    · rename_i hrole
      cases h
      exact ⟨require_eq_ok.1 hc', hrole⟩
    · nomatch h
  · rintro ⟨hc, hrole⟩
    exact ⟨c, require_eq_ok.2 hc, if_pos hrole⟩

/-! ## Derived schemas -/

theorem mem_identifiers {c : Component} :
    c ∈ s.identifiers ↔ c ∈ s.components ∧ c.role = .identifier := by
  rw [identifiers, withRole, List.mem_filter, decide_eq_true_iff]

theorem mem_measures {c : Component} : c ∈ s.measures ↔ c ∈ s.components ∧ c.role = .measure := by
  rw [measures, withRole, List.mem_filter, decide_eq_true_iff]

theorem mem_insert {c new : Component} (h : c ∈ (s.insert new).components) :
    c = new ∨ c ∈ s.components ∧ c.name ≠ new.name := by
  have h : c ∈ insertIn new s.components := h
  unfold insertIn at h
  split at h
  · obtain ⟨d, hd, rfl⟩ := List.mem_map.1 h
    by_cases hname : d.name = new.name
    · exact Or.inl (if_pos hname)
    · rw [if_neg hname]
      exact Or.inr ⟨hd, hname⟩
  · rename_i hany
    rcases List.mem_append.1 h with h | h
    · refine Or.inr ⟨h, fun hname => hany ?_⟩
      exact List.any_eq_true.2 ⟨c, h, decide_eq_true hname⟩
    · exact Or.inl (List.mem_singleton.1 h)

/-- Components of other names stay. -/
theorem mem_insert_of_mem {c new : Component} (hc : c ∈ s.components) (hname : c.name ≠ new.name) :
    c ∈ (s.insert new).components := by
  show c ∈ insertIn new s.components
  unfold insertIn
  split
  · exact List.mem_map.2 ⟨c, hc, if_neg hname⟩
  · exact List.mem_append_left _ hc

theorem mem_insert_self (s : Schema) (new : Component) : new ∈ (s.insert new).components := by
  show new ∈ insertIn new s.components
  unfold insertIn
  split
  · rename_i hany
    obtain ⟨d, hd, hname⟩ := List.any_eq_true.1 hany
    exact List.mem_map.2 ⟨d, hd, if_pos (of_decide_eq_true hname)⟩
  · exact List.mem_append_right _ List.mem_cons_self

theorem membership_eq_ok (h : s.membership name = .ok s') :
    ∃ member ∈ s.components, s.require name = .ok member ∧ member.role ≠ .identifier ∧
      s' = (s.restrict (·.role = .identifier)).insert (member.withRole .measure) := by
  obtain ⟨member, hmember, h⟩ := bind_eq_ok.1 h
  obtain ⟨c, hc, hmember⟩ := bind_eq_ok.1 hmember
  split at hmember
  · nomatch hmember
  · rename_i hrole
    cases hmember
    exact ⟨member, mem_of_require hc, hc, hrole, (Except.ok.inj h).symm⟩

theorem keep_eq_ok {names : List String} (h : s.keep names = .ok s') :
    ∃ keep, s' = s.restrict keep := by
  obtain ⟨kept, -, h⟩ := bind_eq_ok.1 h
  exact ⟨_, (Except.ok.inj h).symm⟩

theorem drop_eq_ok {names : List String} (h : s.drop names = .ok s') :
    ∃ keep, s' = s.restrict keep := by
  obtain ⟨dropped, -, h⟩ := bind_eq_ok.1 h
  exact ⟨_, (Except.ok.inj h).symm⟩

/-- A measure is stored under the name it was found under, or under the normalized name. -/
theorem withMeasure_eq_ok {d : Domain} (h : s.withMeasure name d = .ok s') :
    (∃ c, s.component? name = some c ∧ c.role ≠ .identifier ∧
      s' = s.insert ⟨c.name, .measure, d⟩) ∨
      s.component? name = none ∧ s' = s.insert ⟨normalizeName name, .measure, d⟩ := by
  unfold withMeasure at h
  split at h
  · rename_i c hc
    split at h
    · nomatch h
    · rename_i hrole
      exact Or.inl ⟨c, hc, hrole, (Except.ok.inj h).symm⟩
  · rename_i hc
    exact Or.inr ⟨hc, (Except.ok.inj h).symm⟩

/-- What replaces a component is what the name of that component refers to. -/
theorem component?_insert_found {c new : Component} (hc : s.component? name = some c)
    (hname : new.name = c.name) : (s.insert new).component? name = some new := by
  have hany : s.components.any (·.name = new.name) = true :=
    List.any_eq_true.2 ⟨c, mem_of_component? hc, decide_eq_true hname.symm⟩
  have hcomponents : (s.insert new).components =
      s.components.map fun x => if x.name = new.name then new else x := if_pos hany
  unfold component? at hc ⊢
  rw [hcomponents, NamePattern.find?_map fun x => ?_, hc, Option.map_some, if_pos hname.symm]
  by_cases hx : x.name = new.name
  · rw [if_pos hx, hx]
  · rw [if_neg hx]

/-- A name that referred to nothing can only refer to what is new. -/
theorem component?_insert_new {x new : Component} (hnone : s.component? name = none)
    (hx : (s.insert new).component? name = some x) : x = new := by
  rcases mem_insert (mem_of_component? hx) with rfl | ⟨hmem, -⟩
  · rfl
  · have hothers := NamePattern.find?_eq_none_iff.1 hnone x hmem
    rw [NamePattern.accepts_of_find? hx] at hothers
    nomatch hothers

/-- What is new under the normalized form of a name that referred to nothing is found under the name
if the name finds itself. -/
theorem component?_insert_normalized (new : Component) (hnone : s.component? name = none)
    (hname : new.name = normalizeName name) :
    FindsItself name ∧ (s.insert new).component? name = some new ∨
      ¬ FindsItself name ∧ (s.insert new).component? name = none := by
  cases hfind : (s.insert new).component? name with
  | some x =>
    cases component?_insert_new hnone hfind
    have haccepts := NamePattern.accepts_of_find? hfind
    rw [hname] at haccepts
    exact Or.inl ⟨haccepts, rfl⟩
  | none =>
    refine Or.inr ⟨fun hfinds => ?_, rfl⟩
    have hrefused := NamePattern.find?_eq_none_iff.1 hfind _ (mem_insert_self s new)
    rw [hname, hfinds] at hrefused
    nomatch hrefused

/-- A name that refers to nothing but finds itself is not the name of a component once it is
normalized. -/
theorem name_ne_normalizeName {c : Component} (hnone : s.component? name = none)
    (hfinds : FindsItself name) (hc : c ∈ s.components) : c.name ≠ normalizeName name := by
  intro hname
  have hrefused := NamePattern.find?_eq_none_iff.1 hnone c hc
  rw [hname, hfinds] at hrefused
  nomatch hrefused

/-- The measure just defined is what its name refers to, if the name finds itself. -/
theorem component?_withMeasure {d : Domain} (h : s.withMeasure name d = .ok s') :
    (∃ stored, s' = s.insert ⟨stored, .measure, d⟩ ∧
        s'.component? name = some ⟨stored, .measure, d⟩) ∨
      ¬ FindsItself name ∧ s'.component? name = none := by
  rcases withMeasure_eq_ok h with ⟨c, hc, -, rfl⟩ | ⟨hnone, rfl⟩
  · exact Or.inl ⟨c.name, rfl, component?_insert_found hc rfl⟩
  · rcases component?_insert_normalized ⟨normalizeName name, .measure, d⟩ hnone rfl with
      ⟨-, hfound⟩ | hlost
    · exact Or.inl ⟨_, rfl, hfound⟩
    · exact Or.inr hlost

/-- A component whose domain is found anew if it is a measure. -/
structure Remeasured (domainOf : Component → Except EvalError Domain) (c c' : Component) :
    Prop where
  name : c'.name = c.name
  role : c'.role = c.role
  measure : c.role = .measure → domainOf c = .ok c'.domain
  other : c.role ≠ .measure → c' = c

theorem mapMeasures_eq_ok {domainOf : Component → Except EvalError Domain}
    (h : s.mapMeasures domainOf = .ok s') :
    List.Forall₂ (Remeasured domainOf) s.components s'.components := by
  obtain ⟨components, hcomponents, h⟩ := bind_eq_ok.1 h
  have hs' : s'.components = components := by
    unfold ofList at h
    split at h
    · rw [← Except.ok.inj h]
    · nomatch h
  rw [hs']
  refine (mapM_eq_ok.1 hcomponents).imp fun c c' hc => ?_
  split at hc
  · rename_i hrole
    obtain ⟨d, hd, rfl⟩ := map_eq_ok.1 hc
    exact ⟨rfl, rfl, fun _ => hd, fun hne => absurd hrole hne⟩
  · rename_i hrole
    cases hc
    exact ⟨rfl, rfl, fun heq => absurd heq hrole, fun _ => rfl⟩

section

variable {domainOf : Component → Except EvalError Domain} {c c' : Component}

theorem exists_remeasured (h : s.mapMeasures domainOf = .ok s') (hc : c ∈ s.components) :
    ∃ c' ∈ s'.components, Remeasured domainOf c c' :=
  exists_of_forall₂ (mapMeasures_eq_ok h) hc

theorem exists_source (h : s.mapMeasures domainOf = .ok s') (hc' : c' ∈ s'.components) :
    ∃ c ∈ s.components, Remeasured domainOf c c' :=
  exists_of_forall₂ (mapMeasures_eq_ok h).flip hc'

/-- Components keep their names, so the name decides which one another comes from. -/
theorem remeasured_of_name (h : s.mapMeasures domainOf = .ok s') (hc : c ∈ s.components)
    (hc' : c' ∈ s'.components) (hname : c.name = c'.name) : Remeasured domainOf c c' := by
  obtain ⟨source, hsource, hrel⟩ := exists_source h hc'
  have hsame : source = c := eq_of_name hsource hc (by rw [hname, hrel.name])
  exact hsame ▸ hrel

/-- What a name refers to among the new components comes from what it refers to among the old ones.
-/
theorem component?_mapMeasures (h : s.mapMeasures domainOf = .ok s')
    (hc : s.component? name = some c) :
    ∃ c', s'.component? name = some c' ∧ Remeasured domainOf c c' := by
  have hrel : s.Rel (fun _ _ => True) s' :=
    (mapMeasures_eq_ok h).imp fun _ _ hc => ⟨hc.name.symm, hc.role.symm, trivial⟩
  rcases component?_pair hrel name with ⟨hnone, -⟩ | ⟨d, d', hd, hd', hpaired⟩
  · rw [hc] at hnone
    nomatch hnone
  · rw [hc] at hd
    cases hd
    exact ⟨d', hd', remeasured_of_name h hpaired.left hpaired.right hpaired.rel.name⟩

end

/-- Only a measure for which there is no domain stands in the way. -/
theorem exists_mapMeasures {domainOf : Component → Except EvalError Domain} :
    (∃ s', s.mapMeasures domainOf = .ok s') ↔ ∀ m ∈ s.measures, ∃ d, domainOf m = .ok d := by
  constructor
  · rintro ⟨s', hs'⟩ m hm
    obtain ⟨hmem, hrole⟩ := mem_measures.1 hm
    obtain ⟨c, -, hrel⟩ := exists_remeasured hs' hmem
    exact ⟨c.domain, hrel.measure hrole⟩
  intro h
  obtain ⟨components, hcomponents⟩ : ∃ components, (s.components.mapM fun c =>
      if c.role = .measure then c.withDomain <$> domainOf c else pure c) = .ok components := by
    refine exists_mapM_eq_ok fun c hc => ?_
    by_cases hrole : c.role = .measure
    · obtain ⟨d, hd⟩ := h c (mem_measures.2 ⟨hc, hrole⟩)
      exact ⟨c.withDomain d, by rw [if_pos hrole, hd]; rfl⟩
    · exact ⟨c, if_neg hrole⟩
  have hnames : components.map Component.name = s.components.map Component.name := by
    refine map_eq_map_of_forall₂ (mapM_eq_ok.1 hcomponents).flip fun c' c hc => ?_
    split at hc
    · obtain ⟨d, -, rfl⟩ := map_eq_ok.1 hc
      rfl
    · cases hc
      rfl
  have hnodup : (components.map Component.name).Nodup := hnames ▸ s.names_nodup
  exact ⟨⟨components, hnodup⟩, bind_eq_ok.2 ⟨components, hcomponents, dif_pos hnodup⟩⟩

end Schema

/-! ## Known domains -/

theorem UnaryOp.known_resultDomain? {op : UnaryOp} {d d' : Domain} (hd : d ≠ .unknown)
    (h : op.resultDomain? d = .ok d') : d' ≠ .unknown := by
  have h := resultDomain?_eq_ok.1 h
  cases op with
  | neg =>
    obtain ⟨-, rfl⟩ := h
    cases d <;> simp at hd ⊢
  | not => exact h.2 ▸ by decide
  | isNull => exact h ▸ by decide

theorem BinaryOp.known_resultDomain? {op : BinaryOp} {l r d' : Domain} (hl : l ≠ .unknown)
    (hr : r ≠ .unknown) (h : op.resultDomain? l r = .ok d') : d' ≠ .unknown := by
  have h := resultDomain?_eq_ok.1 h
  cases hfamily : op.family with
  | logic =>
    rw [hfamily] at h
    exact h.2.2 ▸ by decide
  | comparison =>
    rw [hfamily] at h
    exact h.2 ▸ by decide
  | arithmetic =>
    rw [hfamily] at h
    obtain ⟨-, -, rfl⟩ := h
    unfold arithmeticDomain
    split_ifs <;> simp_all

namespace Reducer

theorem known_resultDomain? {r : Reducer} {d d' : Domain} (hd : d ≠ .unknown)
    (h : r.resultDomain? d = .ok d') : d' ≠ .unknown := by
  have h := resultDomain?_eq_ok.1 h
  split at h
  · exact h ▸ by decide
  · exact h ▸ hd
  · exact h ▸ hd
  · exact h ▸ hd
  · exact h ▸ hd
  · obtain ⟨-, rfl⟩ := h
    unfold numericDomain
    split <;> decide

theorem known_outputDomain? {r : Reducer} {d d' : Domain} (hd : d ≠ .unknown)
    (h : r.outputDomain? d = .ok d') : d' ≠ .unknown := by
  unfold outputDomain? at h
  split at h
  · split at h
    · exact Except.ok.inj h ▸ by decide
    · exact known_resultDomain? hd h
  · split at h
    · exact Except.ok.inj h ▸ by decide
    · exact known_resultDomain? hd h
  · exact known_resultDomain? hd h

end Reducer

namespace Schema

variable {t : Tolerance} {s s' : Schema} {name : String}

/-- All domains are known, and the names are among those that may be stored. -/
def Sound (t : Tolerance) (s : Schema) : Prop :=
  ∀ c ∈ s.components, c.domain ≠ .unknown ∧ t.name c.name

theorem Sound.restrict (h : s.Sound t) (keep : Component → Bool) : (s.restrict keep).Sound t :=
  fun c hc => h c (List.mem_of_mem_filter hc)

theorem Sound.insert (h : s.Sound t) {c : Component} (hdomain : c.domain ≠ .unknown)
    (hname : t.name c.name) : (s.insert c).Sound t := by
  intro d hd
  rcases mem_insert hd with rfl | ⟨hd, -⟩
  · exact ⟨hdomain, hname⟩
  · exact h d hd

theorem Sound.membership (h : s.Sound t) (hs' : s.membership name = .ok s') : s'.Sound t := by
  obtain ⟨member, hmember, -, -, rfl⟩ := membership_eq_ok hs'
  exact (h.restrict _).insert (h member hmember).1 (h member hmember).2

theorem Sound.withMeasure (h : s.Sound t) {d : Domain} (hs' : s.withMeasure name d = .ok s')
    (hd : d ≠ .unknown) (hname : t.name (normalizeName name)) : s'.Sound t := by
  rcases withMeasure_eq_ok hs' with ⟨c, hc, -, rfl⟩ | ⟨-, rfl⟩
  · exact h.insert hd (h c (mem_of_component? hc)).2
  · exact h.insert hd hname

theorem Sound.mapMeasures (h : s.Sound t) {domainOf : Component → Except EvalError Domain}
    (hs' : s.mapMeasures domainOf = .ok s')
    (hdomain : ∀ c d, c.domain ≠ .unknown → domainOf c = .ok d → d ≠ .unknown) : s'.Sound t := by
  intro c' hc'
  obtain ⟨c, hc, hrel⟩ := exists_source hs' hc'
  by_cases hrole : c.role = .measure
  · exact ⟨hdomain c c'.domain (h c hc).1 (hrel.measure hrole), hrel.name ▸ (h c hc).2⟩
  · rw [hrel.other hrole]
    exact h c hc

/-- Aggregation derives its schema by restriction and by new domains for measures. -/
theorem Sound.aggregate (h : s.Sound t) {statistic : Statistic} {groupBy : List String}
    (hs' : statistic.outputSchema s groupBy = .ok s') : s'.Sound t := by
  obtain ⟨keys, -, hs'⟩ := bind_eq_ok.1 hs'
  exact (h.restrict _).mapMeasures hs' fun c d hc hd => Reducer.known_resultDomain? hc hd

theorem Sound.analytic (h : s.Sound t) {r : Reducer} {window : WindowSpec}
    (hs' : r.outputSchema s window = .ok s') : s'.Sound t := by
  obtain ⟨_, -, hs'⟩ := bind_eq_ok.1 hs'
  exact h.mapMeasures hs' fun c d hc hd => Reducer.known_outputDomain? hc hd

end Schema

end DataCube
