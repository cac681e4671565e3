import DataCube.Proofs.Identifiers

/-!
# Names under projection

A name refers to the component that is spelled like it, or else, if it is not in quotes, to the
first one that differs from it in ASCII letter case only.  Leaving components out does not change
what a name refers to as long as that is still there.

A membership also moves its component behind the identifiers.  If the component stood before an
identifier whose name differs from its own in letter case only, a name that is the exact spelling of
neither refers to the identifier from then on.

* `Schema.Shrinks`: the projections that leave components out.
* `Schema.Overtakes`: the identifier that a name refers to after a membership.
* `Schema.component?_of_sublist`, `Schema.component?_membership`: the two cases.
* `Schema.projected_names`: what names refer to in a derived schema.
-/

namespace DataCube

/-- The first element to pass a test is the first among some of the elements, if it is one of them.
-/
theorem find?_of_sublist {α : Type} {p : α → Bool} {xs ys : List α} {x : α}
    (hsublist : ys.Sublist xs) (hnodup : xs.Nodup) (hx : xs.find? p = some x) (hmem : x ∈ ys) :
    ys.find? p = some x := by
  induction hsublist with
  | slnil => nomatch hx
  | @cons ys xs a hsublist ih =>
    obtain ⟨hnot, hnodup⟩ := List.nodup_cons.1 hnodup
    cases hp : p a with
    | true =>
      rw [List.find?_cons_of_pos hp] at hx
      cases hx
      exact absurd (hsublist.subset hmem) hnot
    | false =>
      rw [List.find?_cons_of_neg (by simp [hp])] at hx
      exact ih hnodup hx hmem
  | @cons_cons ys xs a hsublist ih =>
    cases hp : p a with
    | true =>
      rw [List.find?_cons_of_pos hp] at hx ⊢
      exact hx
    | false =>
      rw [List.find?_cons_of_neg (by simp [hp])] at hx ⊢
      refine ih (List.nodup_cons.1 hnodup).2 hx ((List.mem_cons.1 hmem).resolve_left ?_)
      rintro rfl
      have hpasses := List.find?_some hx
      rw [hp] at hpasses
      nomatch hpasses

namespace Schema

variable {s t : Schema} {name : String} {c c' : Component}

/-! ## Leaving components out -/

/-- If the names are some of the names, in their order, a name refers to what it referred to. -/
theorem component?_of_sublist (hnames : t.names.Sublist s.names)
    (hc : s.component? name = some c) (hc' : c' ∈ t.components) (hname : c'.name = c.name) :
    t.component? name = some c' := by
  rw [component?_eq_some_iff] at hc ⊢
  cases hc with
  | spelled _ hspelled => exact .spelled hc' (hname.trans hspelled)
  | first hplain hspelled hfirst =>
    refine .first hplain (fun d hd hd' => ?_) ?_
    · obtain ⟨d', hmem, heq⟩ := List.mem_map.1 (hnames.subset (List.mem_map_of_mem hd))
      exact hspelled d' hmem (heq.trans hd')
    -- the first name that is accepted is still the first one
    have hfound : s.names.find? (NamePattern.ofName name).accepts = some c.name := by
      rw [names, List.find?_map]
      exact congrArg (Option.map Component.name) hfirst
    have hkept := find?_of_sublist hnames s.names_nodup hfound
      (hname ▸ List.mem_map_of_mem hc')
    rw [names, List.find?_map, Option.map_eq_some_iff] at hkept
    obtain ⟨d, hd, hdname⟩ := hkept
    rw [← eq_of_name (List.mem_of_find?_eq_some hd) hc' (hdname.trans hname.symm)]
    exact hd

/-- The schema is derived from the other one by leaving components out. -/
inductive Shrinks (s t : Schema) : Prop
  | keep {names : List String} (h : s.keep names = .ok t)
  | drop {names : List String} (h : s.drop names = .ok t)
  | aggregate {statistic : Statistic} {groupBy : List String}
      (h : statistic.outputSchema s groupBy = .ok t)

theorem names_restrict (s : Schema) (keep : Component → Bool) :
    (s.restrict keep).names.Sublist s.names :=
  List.filter_sublist.map _

theorem names_mapMeasures {domainOf : Component → Except EvalError Domain}
    (h : s.mapMeasures domainOf = .ok t) : t.names = s.names :=
  (map_eq_map_of_forall₂ (mapMeasures_eq_ok h) fun _ _ hc => hc.name.symm).symm

theorem Shrinks.names_sublist (h : s.Shrinks t) : t.names.Sublist s.names := by
  cases h with
  | keep h =>
    obtain ⟨keep, rfl⟩ := keep_eq_ok h
    exact s.names_restrict keep
  | drop h =>
    obtain ⟨keep, rfl⟩ := drop_eq_ok h
    exact s.names_restrict keep
  | aggregate h =>
    obtain ⟨keys, -, h⟩ := Statistic.outputSchema_eq_ok.1 h
    rw [names_mapMeasures h]
    exact s.names_restrict _

/-! ## Memberships -/

/-- An identifier that a name refers to once the component that it refers to has been moved behind
the identifiers. -/
structure Overtakes (s : Schema) (name : String) (c i : Component) : Prop where
  other : c.role ≠ .identifier
  plain : NamePattern.ofName name = .ignoringCase name
  spelled : c.name ≠ name
  identifier : i ∈ s.identifiers
  accepted : (NamePattern.ofName name).accepts i.name = true

theorem membership_iff : s.membership name = .ok t ↔
    ∃ member, s.component? name = some member ∧ member.role ≠ .identifier ∧
      t.components = s.identifiers ++ [member.withRole .measure] := by
  have hinsert {member : Component} (hmem : member ∈ s.components)
      (hrole : member.role ≠ .identifier) :
      ((s.restrict (·.role = .identifier)).insert (member.withRole .measure)).components =
        s.identifiers ++ [member.withRole .measure] := by
    refine if_neg fun hany => ?_
    obtain ⟨i, hi, hname⟩ := List.any_eq_true.1 hany
    exact name_ne_of_other hi hmem hrole (of_decide_eq_true hname)
  constructor
  · intro h
    obtain ⟨member, hmem, hmember, hrole, rfl⟩ := membership_eq_ok h
    exact ⟨member, require_eq_ok.1 hmember, hrole, hinsert hmem hrole⟩
  · rintro ⟨member, hmember, hrole, ht⟩
    refine bind_eq_ok.2 ⟨member, ?_, ?_⟩
    · exact bind_eq_ok.2 ⟨member, require_eq_ok.2 hmember, if_neg hrole⟩
    · rw [← hinsert (mem_of_component? hmember) hrole] at ht
      exact congrArg Except.ok (eq_of_components ht.symm)

/-- A component that is moved behind the identifiers is still found there, or else one of them is.
-/
theorem component?_moved {member : Component} (hmember : member ∈ s.components)
    (hrole : member.role ≠ .identifier)
    (ht : t.components = s.identifiers ++ [member.withRole .measure])
    (hc : s.component? name = some c) (hc' : c' ∈ t.components) (hname : c'.name = c.name) :
    (∀ i, ¬ s.Overtakes name c i) ∧ t.component? name = some c' ∨
      ∃ i, s.Overtakes name c i ∧ t.component? name = some i := by
  simp only [component?_eq_some_iff] at hc ⊢
  cases hc with
  | spelled _ hspelled =>
    refine Or.inl ⟨fun i hi => ?_, .spelled hc' (hname.trans hspelled)⟩
    rw [hi.plain] at hspelled
    exact hi.spelled hspelled
  | first hplain hspelled hfirst =>
    have hspelled' : ∀ d ∈ t.components, d.name ≠ name := by
      intro d hd
      rw [ht] at hd
      rcases List.mem_append.1 hd with hd | hd
      · exact hspelled d (mem_of_mem_identifiers hd)
      · rw [List.mem_singleton.1 hd]
        exact hspelled member hmember
    let accepts (d : Component) : Bool := (NamePattern.ofName name).accepts d.name
    have hfind : t.components.find? accepts =
        (s.identifiers.find? accepts).or ([member.withRole .measure].find? accepts) := by
      rw [ht, List.find?_append]
    rw [ht] at hc'
    rcases List.mem_append.1 hc' with hidentifier | hmoved
    · have hsame : c' = c :=
        eq_of_name (mem_of_mem_identifiers hidentifier) (List.mem_of_find?_eq_some hfirst) hname
      subst hsame
      have hkept := find?_of_sublist List.filter_sublist s.names_nodup.of_map hfirst hidentifier
      refine Or.inl ⟨fun i hi => hi.other (mem_identifiers.1 hidentifier).2, ?_⟩
      exact .first hplain hspelled' (by rw [hfind, identifiers, withRole, hkept]; rfl)
    · rw [List.mem_singleton] at hmoved
      subst hmoved
      have hsame : member = c :=
        eq_of_name hmember (List.mem_of_find?_eq_some hfirst) hname
      subst hsame
      cases hids : s.identifiers.find? accepts with
      | none =>
        refine Or.inl ⟨fun i hi => List.find?_eq_none.1 hids i hi.identifier hi.accepted, ?_⟩
        have haccepted := List.find?_some hfirst
        refine .first hplain hspelled' ?_
        rw [hfind, hids, Option.none_or]
        exact List.find?_cons_of_pos haccepted
      | some i =>
        have haccepted := List.find?_some hids
        refine Or.inr ⟨i, ⟨hrole, hplain, hspelled _ hmember,
          List.mem_of_find?_eq_some hids, haccepted⟩, ?_⟩
        exact .first hplain hspelled' (by rw [hfind, hids]; rfl)

theorem identifiers_moved {member : Component}
    (ht : t.components = s.identifiers ++ [member.withRole .measure]) :
    t.identifiers = s.identifiers := by
  have hkept : s.identifiers.filter (·.role = .identifier) = s.identifiers :=
    List.filter_eq_self.2 fun i hi => decide_eq_true (mem_identifiers.1 hi).2
  have hmoved : [member.withRole .measure].filter (·.role = .identifier) = [] := rfl
  rw [identifiers, withRole, ht, List.filter_append, hkept, hmoved, List.append_nil]

/-- A membership that is made again is the same, or fails on the identifier that has overtaken. -/
theorem membership_again (h : s.membership name = .ok t) (hc : s.component? name = some c) :
    (∀ i, ¬ s.Overtakes name c i) ∧ t.membership name = .ok t ∨
      ∃ i, s.Overtakes name c i ∧
        t.membership name = .error (.incompatibleRole .membership i.name .measure) := by
  obtain ⟨member, hmember, hrole, ht⟩ := membership_iff.1 h
  cases hmember.symm.trans hc
  have hmoved : c.withRole .measure ∈ t.components := by
    rw [ht]
    exact List.mem_append_right _ List.mem_cons_self
  rcases component?_moved (mem_of_component? hc) hrole ht hc hmoved rfl with
    ⟨hfree, hfound⟩ | ⟨i, hi, hfound⟩
  · refine Or.inl ⟨hfree, membership_iff.2 ⟨_, hfound, nofun, ?_⟩⟩
    rw [identifiers_moved ht]
    exact ht
  · refine Or.inr ⟨i, hi, ?_⟩
    unfold membership requireOther
    rw [require_eq_ok.2 hfound, ok_bind, if_pos (mem_identifiers.1 hi.identifier).2]
    rfl

/-! ## What names refer to -/

/-- A name that refers to a component of a schema refers to it in a schema derived from it, if that
still has the component.  A membership is the exception if an identifier overtakes it: the name
refers to such an identifier then, and the membership cannot be made again. -/
theorem projected_names (s : Schema) :
    (∀ (t : Schema) (name : String) (c c' : Component), s.Shrinks t →
      s.component? name = some c → c' ∈ t.components → c'.name = c.name →
        t.component? name = some c') ∧
      (∀ (t : Schema) (member name : String) (c c' : Component), s.membership member = .ok t →
        s.component? name = some c → c' ∈ t.components → c'.name = c.name →
          (∀ i, ¬ s.Overtakes name c i) ∧ t.component? name = some c' ∨
            ∃ i, s.Overtakes name c i ∧ t.component? name = some i) ∧
      ∀ (t : Schema) (name : String) (c : Component), s.membership name = .ok t →
        s.component? name = some c →
          (∀ i, ¬ s.Overtakes name c i) ∧ t.membership name = .ok t ∨
            ∃ i, s.Overtakes name c i ∧
              t.membership name = .error (.incompatibleRole .membership i.name .measure) := by
  refine ⟨?_, ?_, ?_⟩
  · exact fun t name c c' h hc hc' hname => component?_of_sublist h.names_sublist hc hc' hname
  · intro t member name c c' h hc hc' hname
    obtain ⟨moved, hmember, hrole, ht⟩ := membership_iff.1 h
    exact component?_moved (mem_of_component? hmember) hrole ht hc hc' hname
  · exact fun t name c h hc => membership_again h hc

/-- A measure before an identifier whose name differs from its own in letter case only. -/
def caseVariants : Schema := ⟨[⟨"Me", .measure, .integer⟩, ⟨"ME", .identifier, .string⟩], by decide⟩

theorem projected_names_caseVariants :
    caseVariants.component? "me" = some ⟨"Me", .measure, .integer⟩ ∧
      ∃ i, caseVariants.Overtakes "me" ⟨"Me", .measure, .integer⟩ i := by
  refine ⟨rfl, ?_⟩
  rcases (projected_names caseVariants).2.2 _ "me" _ rfl rfl with ⟨-, hagain⟩ | ⟨i, hi, -⟩
  · nomatch hagain
  · exact ⟨i, hi⟩

/-- A membership does not always leave names what they refer to, and cannot always be made again. -/
theorem membership_moves_names :
    (¬ ∀ (s t : Schema) (name : String) (c c' : Component),
        (s.Shrinks t ∨ ∃ member, s.membership member = .ok t) → s.component? name = some c →
          c' ∈ t.components → c'.name = c.name → t.component? name = some c') ∧
      ¬ ∀ (s t : Schema) (name : String), s.membership name = .ok t →
        t.membership name = .ok t := by
  let moved : Schema := ⟨[⟨"ME", .identifier, .string⟩, ⟨"Me", .measure, .integer⟩], by decide⟩
  have hmoved : caseVariants.membership "me" = .ok moved := rfl
  constructor
  · intro h
    have hfound := h caseVariants moved "me" ⟨"Me", .measure, .integer⟩ ⟨"Me", .measure, .integer⟩
      (Or.inr ⟨"me", hmoved⟩) rfl (by decide) rfl
    revert hfound
    decide
  · intro h
    nomatch h caseVariants moved "me" hmoved

end Schema

end DataCube
