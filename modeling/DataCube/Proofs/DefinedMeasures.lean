import DataCube.Proofs.Identifiers

/-!
# Defining a measure

A measure is defined in the place of what its name refers to, or else at the end under the
normalized name.  Nothing else changes, and the name refers to the measure afterwards.

There is one exception.  Names are normalized by the lower case of all of Unicode, but compared by
that of ASCII, so a name that has a capital outside ASCII is not found under its normalized form.
A measure that is newly defined under such a name cannot be looked up by it, and if an identifier
has the normalized name, it is replaced.

* `IsPlainName`, `findsItself_iff`: the names that are found under their normalized form.
* `Schema.Updated`: one component is replaced in place, or one is appended.
* `Schema.IdentifiersStay`: every identifier is still there, at its place.
* `Schema.withMeasure_frame`: what defining a measure does to a schema.
-/

namespace DataCube

/-! ## Names that find themselves -/

namespace Lowercase

variable {c d : Char} {cs : List Char}

/-- Only the ASCII capitals have another character for their ASCII lower case. -/
theorem toLower_cases (c : Char) :
    c.toLower = c ∨ 65 ≤ c.toNat ∧ c.toNat ≤ 90 ∧ c.toLower.toNat = c.toNat + 32 := by
  unfold Char.toLower
  split
  · rename_i h
    have hle : 65 ≤ c.toNat := UInt32.le_iff_toNat_le.1 h.1
    have hge : c.toNat ≤ 90 := UInt32.le_iff_toNat_le.1 h.2
    refine Or.inr ⟨hle, hge, ?_⟩
    show (c.val + 32).toNat = c.toNat + 32
    rw [UInt32.toNat_add]
    exact Nat.mod_eq_of_lt (show c.toNat + 32 < 2 ^ 32 by omega)
  · exact Or.inl rfl

theorem toLower_toLower (c : Char) : c.toLower.toLower = c.toLower := by
  rcases toLower_cases c with h | ⟨hle, -, h⟩
  · rw [h, h]
  · rcases toLower_cases c.toLower with h' | ⟨-, h', -⟩
    · exact h'
    · omega

theorem toLower_of_not_ascii (h : 128 ≤ c.toNat) : c.toLower = c := by
  rcases toLower_cases c with h' | ⟨-, h', -⟩
  · exact h'
  · omega

/-- A character outside ASCII is the ASCII lower case of no other. -/
theorem eq_of_toLower_eq (h : 128 ≤ c.toNat) (hd : d.toLower = c) : d = c := by
  rcases toLower_cases d with h' | ⟨-, h', hd'⟩
  · exact h'.symm.trans hd
  · rw [hd] at hd'
    omega

/-- The lower case of the character differs from it in ASCII letter case at most.  The dotted
capital I has no single character for its lower case. -/
def IsPlain (c : Char) : Prop :=
  c.toNat < 128 ∨ single c = c ∧ c.toNat ≠ 0x130

theorem not_isPlain_capitalSigma : ¬ IsPlain capitalSigma := by
  rintro (h | ⟨h, -⟩)
  · exact absurd h (by decide)
  · exact absurd h (by decide)

theorem toLower_single (hdotted : c.toNat ≠ 0x130) :
    c.toLower = (single c).toLower ↔ IsPlain c := by
  by_cases hascii : c.toNat < 128
  · have hsingle : single c = c.toLower := if_pos hascii
    rw [hsingle, toLower_toLower]
    exact iff_of_true rfl (Or.inl hascii)
  · have hascii : 128 ≤ c.toNat := Nat.le_of_not_lt hascii
    rw [toLower_of_not_ascii hascii]
    constructor
    · exact fun h => Or.inr ⟨eq_of_toLower_eq hascii h.symm, hdotted⟩
    · rintro (h | ⟨h, -⟩)
      · omega
      · rw [h, toLower_of_not_ascii hascii]

/-- A text and its lower case are equal but for ASCII letter case if its characters are. -/
theorem map_toLower_rest (before : List Char) :
    cs.map Char.toLower = (rest before cs).map Char.toLower ↔ ∀ c ∈ cs, IsPlain c := by
  induction cs generalizing before with
  | nil => simp [rest]
  | cons c cs ih =>
    rw [List.forall_mem_cons, rest, List.map_cons, List.map_append]
    by_cases hsigma : c = capitalSigma
    · subst hsigma
      simp only [if_true, List.map_cons, List.map_nil, List.cons_append, List.nil_append,
        List.cons.injEq]
      refine iff_of_false (fun h => ?_) (fun h => not_isPlain_capitalSigma h.1)
      -- neither small sigma is the capital
      have hne : capitalSigma.toLower ≠ (sigma before cs).toLower := by
        unfold sigma
        split <;> decide
      exact hne h.1
    by_cases hdotted : c.toNat = 0x130
    · rw [if_neg hsigma, if_pos hdotted]
      simp only [List.map_cons, List.map_nil, List.cons_append, List.nil_append, List.cons.injEq]
      refine iff_of_false (fun h => ?_) ?_
      · have hc : c.toLower = c := toLower_of_not_ascii (by omega)
        have h130 : c.toNat = (Char.ofNat 0x69).toNat := by
          rw [← hc, h.1]
          decide
        rw [hdotted] at h130
        exact absurd h130 (by decide)
      · rintro ⟨h | h, -⟩
        · omega
        · exact h.2 hdotted
    · rw [if_neg hsigma, if_neg hdotted]
      simp only [List.map_cons, List.map_nil, List.cons_append, List.nil_append, List.cons.injEq]
      exact and_congr (toLower_single hdotted) (ih _)

end Lowercase

theorem foldCase_lowercase {s : String} :
    foldCase s = foldCase (lowercase s) ↔ ∀ c ∈ s.toList, Lowercase.IsPlain c := by
  unfold foldCase lowercase
  rw [String.toList_ofList, String.ofList_inj]
  exact Lowercase.map_toLower_rest []

/-- The name is in quotes, or has no capitals outside ASCII. -/
def IsPlainName (name : String) : Prop :=
  NamePattern.unquote? name ≠ none ∨ ∀ c ∈ name.toList, Lowercase.IsPlain c

theorem findsItself_iff {name : String} : FindsItself name ↔ IsPlainName name := by
  unfold FindsItself normalizeName NamePattern.ofName IsPlainName
  cases NamePattern.unquote? name with
  | some inner => exact iff_of_true (decide_eq_true rfl) (Or.inl nofun)
  | none =>
    simp only [NamePattern.accepts, decide_eq_true_iff, foldCase_lowercase, ne_eq, not_true,
      false_or]

/-! ## One component changes -/

namespace Schema

variable {s s' : Schema} {name : String} {new : Component}

/-- One component is replaced in place by one of the same name, or one is appended under a name that
is not taken. -/
inductive Updated (s : Schema) (new : Component) (s' : Schema) : Prop
  | replaced (i : Nat) (old : Component) (hold : s.components[i]? = some old)
      (hname : old.name = new.name) (heq : s'.components = s.components.set i new)
  | appended (hname : ∀ c ∈ s.components, c.name ≠ new.name)
      (heq : s'.components = s.components ++ [new])

/-- Every identifier is still there, at its place. -/
def IdentifiersStay (s s' : Schema) : Prop :=
  ∀ (i : Nat) (c : Component), s.components[i]? = some c → c.role = .identifier →
    s'.components[i]? = some c

/-- Names are distinct, so a name has one place. -/
theorem place_eq {i j : Nat} {c d : Component} (hi : s.components[i]? = some c)
    (hj : s.components[j]? = some d) (hname : c.name = d.name) : i = j := by
  have hsame : c = d := eq_of_name (List.mem_of_getElem? hi) (List.mem_of_getElem? hj) hname
  have hlt : i < s.components.length := (List.getElem?_eq_some_iff.1 hi).1
  rw [← List.getElem?_inj hlt s.names_nodup.of_map, hi, hj, hsame]

theorem updated_insert (s : Schema) (new : Component) : s.Updated new (s.insert new) := by
  by_cases hany : s.components.any (·.name = new.name) = true
  · obtain ⟨old, hold, hname⟩ := List.any_eq_true.1 hany
    obtain ⟨i, hi⟩ := List.mem_iff_getElem?.1 hold
    have hname : old.name = new.name := of_decide_eq_true hname
    refine .replaced i old hi hname ?_
    have hcomponents : (s.insert new).components =
        s.components.map fun x => if x.name = new.name then new else x := if_pos hany
    rw [hcomponents]
    refine List.ext_getElem? fun j => ?_
    rw [List.getElem?_map]
    by_cases hij : i = j
    · subst hij
      rw [hi, Option.map_some, if_pos hname,
        List.getElem?_set_self (List.getElem?_eq_some_iff.1 hi).1]
    · rw [List.getElem?_set_ne hij]
      cases hj : s.components[j]? with
      | none => rfl
      | some d =>
        have hd : d.name ≠ new.name := fun hd => hij (place_eq hi hj (hname.trans hd.symm))
        rw [Option.map_some, if_neg hd]
  · refine .appended (fun c hc hname => ?_) (if_neg hany)
    exact hany (List.any_eq_true.2 ⟨c, hc, decide_eq_true hname⟩)

/-- Identifiers stay unless one is replaced by what is none. -/
theorem Updated.identifiersStay_iff (h : s.Updated new s') (hrole : new.role ≠ .identifier) :
    s.IdentifiersStay s' ↔ ∀ c ∈ s.identifiers, c.name ≠ new.name := by
  cases h with
  | replaced i old hold hname heq =>
    unfold IdentifiersStay
    rw [heq]
    constructor
    · intro hstay c hc hnew
      obtain ⟨hmem, hidentifier⟩ := mem_identifiers.1 hc
      have hsame : c = old :=
        eq_of_name hmem (List.mem_of_getElem? hold) (hnew.trans hname.symm)
      have hkept := hstay i old hold (hsame ▸ hidentifier)
      rw [List.getElem?_set_self (List.getElem?_eq_some_iff.1 hold).1] at hkept
      cases hkept
      exact hrole (hsame ▸ hidentifier)
    · intro hothers j c hc hidentifier
      rw [List.getElem?_set_ne, hc]
      rintro rfl
      cases hold.symm.trans hc
      exact hothers old (mem_identifiers.2 ⟨List.mem_of_getElem? hc, hidentifier⟩) hname
  | appended hname heq =>
    refine iff_of_true (fun i c hc _ => ?_) fun c hc => hname c (mem_identifiers.1 hc).1
    rw [heq, List.getElem?_append_left (List.getElem?_eq_some_iff.1 hc).1, hc]

/-- Only identifiers stand in the way of a measure.  It is the one component that changes, and its
name refers to it afterwards.  Under a name that refers to nothing and is not plain it is not found,
and it replaces an identifier that has the normalized name. -/
theorem withMeasure_frame (s : Schema) (name : String) (domain : Domain) :
    match s.withMeasure name domain with
    | .error e => ∃ c, s.component? name = some c ∧ c.role = .identifier ∧
        e = .incompatibleRole .calc c.name .measure
    | .ok s' => s'.names.Nodup ∧ ∃ new : Component, new.role = .measure ∧ new.domain = domain ∧
        s.Updated new s' ∧
        (s.component? name ≠ none ∨ IsPlainName name →
          s.IdentifiersStay s' ∧ s'.component? name = some new) ∧
        (s.component? name = none → ¬ IsPlainName name →
          s'.component? name = none ∧
            (s.IdentifiersStay s' ↔ ∀ c ∈ s.identifiers, c.name ≠ normalizeName name)) := by
  split
  · rename_i e h
    unfold withMeasure at h
    split at h
    · rename_i c hc
      split at h
      · rename_i hrole
        exact ⟨c, hc, hrole, (Except.error.inj h).symm⟩
      · nomatch h
    · nomatch h
  · rename_i s' h
    refine ⟨s'.names_nodup, ?_⟩
    rcases withMeasure_eq_ok h with ⟨c, hc, hrole, rfl⟩ | ⟨hnone, rfl⟩
    · have hupdated := s.updated_insert ⟨c.name, .measure, domain⟩
      have hothers : ∀ c' ∈ s.identifiers, c'.name ≠ c.name :=
        fun c' hc' => name_ne_of_other hc' (mem_of_component? hc) hrole
      refine ⟨_, rfl, rfl, hupdated, fun _ => ⟨?_, component?_insert_found hc rfl⟩, ?_⟩
      · exact (hupdated.identifiersStay_iff nofun).2 hothers
      · intro hnone
        rw [hc] at hnone
        nomatch hnone
    · have hupdated := s.updated_insert ⟨normalizeName name, .measure, domain⟩
      have hstay := hupdated.identifiersStay_iff nofun
      rw [← findsItself_iff]
      refine ⟨_, rfl, rfl, hupdated, ?_⟩
      rcases component?_insert_normalized ⟨normalizeName name, .measure, domain⟩ hnone rfl
        with ⟨hfinds, hfound⟩ | ⟨hlost, hfound⟩
      · refine ⟨fun _ => ⟨hstay.2 fun c hc => ?_, hfound⟩, fun _ hlost => absurd hfinds hlost⟩
        exact name_ne_normalizeName hnone hfinds (mem_identifiers.1 hc).1
      · refine ⟨fun hfinds => ?_, fun _ _ => ⟨hfound, hstay⟩⟩
        exact absurd (hfinds.resolve_left (not_not_intro hnone)) hlost

-- a capital outside ASCII: the identifier is replaced
example : withMeasure ⟨[⟨"é", .identifier, .string⟩], by decide⟩ "É" .integer =
    .ok ⟨[⟨"é", .measure, .integer⟩], by decide⟩ := rfl

end Schema

end DataCube
