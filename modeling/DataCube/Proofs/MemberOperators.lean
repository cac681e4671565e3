import DataCube.Proofs.ProjectedNames
import DataCube.Proofs.Projections

/-!
# Operators on one member

An operator that works on a dataset measure by measure can as well be applied to the dataset with
one measure only.  The other measures are then not looked at, so they cannot fail, but where they do
not fail nothing changes.  The measure is found under its name before and after its domain is found
anew, and what its column takes is taken again as it is.

* `Schema.SingledOut`: the schemas on the two ways.  `Schema.singledOut_of_membership` finds them.
* `DataSet.memberRow_eq_narrowed`: the row with one measure only.
* `DataSet.MeasuresMapped`: a row with its measures changed, in terms of what its columns take.
* `DataSet.exists_singledOut`: the rows on the two ways.
* `Expr.ElementWise`: an operator with a place for a dataset, which works on its measures.
* `member_elementWise`: the result.
-/

namespace DataCube

/-! ## Schemas -/

namespace Schema

variable {s s' t : Schema} {domainOf : Component → Except EvalError Domain} {name : String}
  {m c : Component}

theorem identifiers_of_mapMeasures (h : s.mapMeasures domainOf = .ok s') :
    s'.identifiers = s.identifiers := by
  have hids : List.Forall₂ (Remeasured domainOf) s.identifiers s'.identifiers :=
    forall₂_filter (mapMeasures_eq_ok h) fun c c' hc => by rw [hc.role]
  rw [← List.forall₂_eq_eq_eq]
  refine (forall₂_mem hids.flip).imp fun c' c hc => hc.1.other ?_
  rw [(mem_identifiers.1 hc.2.2).2]
  decide

/-- A measure, and the component that it is once all domains are found anew.  There are four
schemas: the given one and the one with all domains found anew, and each of them with the
identifiers and this measure only. -/
structure SingledOut (domainOf : Component → Except EvalError Domain) (s s' : Schema)
    (m c : Component) (single t : Schema) : Prop where
  all : s.mapMeasures domainOf = .ok s'
  mem : m ∈ s.components
  role : m.role = .measure
  image : c ∈ s'.components
  remeasured : Remeasured domainOf m c
  single : single.components = s.identifiers ++ [m]
  target : t.components = s.identifiers ++ [c]

namespace SingledOut

variable {single : Schema}

theorem role_image (h : SingledOut domainOf s s' m c single t) : c.role = .measure :=
  h.remeasured.role.trans h.role

theorem mem_target (h : SingledOut domainOf s s' m c single t) : c ∈ t.components := by
  rw [h.target]
  exact List.mem_append_right _ List.mem_cons_self

/-- Finding the domain of this measure anew is all that there is to do for it. -/
theorem mapMeasures (h : SingledOut domainOf s s' m c single t) :
    single.mapMeasures domainOf = .ok t := by
  refine bind_eq_ok.2 ⟨t.components, ?_, dif_pos t.names_nodup⟩
  rw [h.single, h.target, mapM_eq_ok]
  refine List.rel_append (List.forall₂_same.2 fun i hi => ?_) (.cons ?_ .nil)
  · refine if_neg ?_
    rw [(mem_identifiers.1 hi).2]
    decide
  · rw [if_pos h.role, h.remeasured.measure h.role]
    obtain ⟨name, role, domain⟩ := c
    obtain ⟨rfl, rfl⟩ : name = m.name ∧ role = m.role := ⟨h.remeasured.name, h.remeasured.role⟩
    rfl

end SingledOut

/-- A measure that a name refers to is what it refers to once the domains are found anew, and can be
singled out under this name before or after. -/
theorem singledOut_of_membership (h : s.mapMeasures domainOf = .ok s')
    (hm : s.component? name = some m) (hrole : m.role = .measure)
    (ht : s'.membership name = .ok t) :
    ∃ c single, s'.require name = .ok c ∧ s.membership name = .ok single ∧
      SingledOut domainOf s s' m c single t := by
  have hsame {k : Component} (hk : k.role = .measure) : k.withRole .measure = k := by
    rw [Component.withRole, ← hk]
  have hother : m.role ≠ .identifier := by
    rw [hrole]
    decide
  obtain ⟨c, hc, hrel⟩ := component?_mapMeasures h hm
  obtain ⟨c', hc', -, htarget⟩ := membership_iff.1 ht
  cases hc.symm.trans hc'
  rw [hsame (hrel.role.trans hrole), identifiers_of_mapMeasures h] at htarget
  obtain ⟨single, hsingle⟩ : ∃ single, s.membership name = .ok single :=
    ⟨_, bind_eq_ok.2 ⟨m, requireOther_eq_ok.2 ⟨hm, hother⟩, rfl⟩⟩
  obtain ⟨m', hm', -, hcomponents⟩ := membership_iff.1 hsingle
  cases hm.symm.trans hm'
  rw [hsame hrole] at hcomponents
  exact ⟨c, single, require_eq_ok.2 hc, hsingle, h, mem_of_component? hm, hrole,
    mem_of_component? hc, hrel, hcomponents, htarget⟩

end Schema

/-! ## Rows -/

namespace DataSet

variable {target s' single t : Schema} {label label' : String} {r made mapped member : Row}
  {m c : Component} {domainOf : Component → Except EvalError Domain}
  {f : Scalar → Except EvalError Scalar}

/-- Taking one measure narrows a row to the identifiers and this measure. -/
theorem memberRow_eq_narrowed (hr : r.WellFormed) (hm : m ∈ r.schema.components)
    (hrole : m.role = .measure) (htarget : target.components = r.schema.identifiers ++ [m])
    (label : String) : memberRow m target label r = .ok (r.narrowed target label) := by
  refine Draft.build_eq_map _ fun c hc => ?_
  rw [htarget] at hc
  rw [Draft.get?_set]
  rcases List.mem_append.1 hc with hc | hc
  · obtain ⟨hmem, hidentifier⟩ := Schema.mem_identifiers.1 hc
    have hne : m.name ≠ c.name :=
      (Schema.name_ne_of_other hc hm (by rw [hrole]; decide)).symm
    rw [if_neg hne, hr.entriesWith_eq]
    exact ⟨Draft.get?_setAll_withRole hmem (Or.inl ⟨hidentifier, rfl⟩), hr.describes_valueOf hmem⟩
  · rw [List.mem_singleton] at hc
    subst hc
    rw [if_pos rfl]
    exact ⟨rfl, hr.describes_valueOf hm⟩

/-- A row with its measures changed: everything else as it was, and of every changed measure what
its column takes. -/
structure MeasuresMapped (domainOf : Component → Except EvalError Domain)
    (f : Scalar → Except EvalError Scalar) (target : Schema) (r made : Row) : Prop where
  schema : made.schema = target
  wellFormed : made.WellFormed
  kept : ∀ c ∈ r.schema.components, c.role ≠ .measure → made.get? c.name = some (r.valueOf c)
  measure : ∀ m ∈ r.schema.components, m.role = .measure → ∀ c ∈ target.components,
    Schema.Remeasured domainOf m c → ∃ u v, f (r.valueOf m) = .ok u ∧ c.store u = .ok v ∧
      made.get? c.name = some v

theorem measuresMapped_of_mapMeasuresRow (hr : r.WellFormed)
    (htarget : r.schema.mapMeasures domainOf = .ok target)
    (h : mapMeasuresRow target label f r = .ok made) :
    MeasuresMapped domainOf f target r made := by
  obtain ⟨value, hvalue, hbuild⟩ := (mapMeasuresRow_eq_ok hr).1 h
  obtain ⟨hschema, hfits⟩ := Draft.wellFormed_build hbuild
  have hget : ∀ c ∈ r.schema.components, (Draft.empty.setAll
      (r.schema.components.map fun c => (c, value c))).get? c.name = some (value c) :=
    fun c hc => Draft.get?_setAll_map (fun _ hk => hk) hc (Or.inl ⟨hc, rfl⟩)
  refine ⟨hschema, hfits, fun c hc hrole => ?_, fun m hm hrole c hc hrel => ?_⟩
  · have hkept := hvalue c hc
    rw [mappedValue, if_neg hrole] at hkept
    refine Draft.get?_build_other htarget hbuild hc hrole ?_ (hr.describes_valueOf hc)
    rw [hget c hc, Except.ok.inj hkept]
  · have hmapped := hvalue m hm
    rw [mappedValue, if_pos hrole] at hmapped
    obtain ⟨c', hc', hrel', v, hv, hmade⟩ :=
      Draft.get?_build_remeasured htarget hbuild hm (hget m hm)
    have hsame : c' = c := Schema.eq_of_name hc' hc (hrel'.name.trans hrel.name.symm)
    subst hsame
    exact ⟨value m, v, hmapped, hv, hrel'.name ▸ hmade⟩

/-- The measures of a row can be changed if the columns take the results. -/
theorem exists_mapMeasuresRow (hr : r.WellFormed)
    (htarget : r.schema.mapMeasures domainOf = .ok target)
    (h : ∀ m ∈ r.schema.components, m.role = .measure → ∃ u, f (r.valueOf m) = .ok u ∧
      ∀ c ∈ target.components, Schema.Remeasured domainOf m c → ∃ v, c.store u = .ok v) :
    ∃ made, mapMeasuresRow target label f r = .ok made := by
  obtain ⟨value, hvalue⟩ : ∃ value : Component → Scalar,
      ∀ c ∈ r.schema.components, mappedValue f r c = .ok (value c) := by
    refine exists_mappedValues fun c hc => ?_
    unfold mappedValue
    split
    · rename_i hrole
      obtain ⟨u, hu, -⟩ := h c hc hrole
      exact ⟨u, hu⟩
    · exact ⟨_, rfl⟩
  obtain ⟨made, hmade⟩ : ∃ made, (Draft.empty.setAll
      (r.schema.components.map fun c => (c, value c))).build target (derivedLineage label r) =
        .ok made := by
    refine Draft.exists_build_remeasured htarget _ fun c hc => ?_
    refine ⟨value c, Draft.get?_setAll_map (fun _ hk => hk) hc (Or.inl ⟨hc, rfl⟩), ?_⟩
    intro c' hc' hrel
    have hmapped := hvalue c hc
    unfold mappedValue at hmapped
    split at hmapped
    · rename_i hrole
      obtain ⟨u, hu, hstore⟩ := h c hc hrole
      cases hu.symm.trans hmapped
      exact hstore c' hc' hrel
    · rename_i hrole
      rw [hrel.other hrole, ← Except.ok.inj hmapped]
      exact ⟨_, Component.store_of_describes (hr.describes_valueOf hc)⟩
  exact ⟨made, (mapMeasuresRow_eq_ok hr).2 ⟨value, hvalue, hmade⟩⟩

/-- The one measure of a narrowed row can be changed if it can be with all others. -/
theorem exists_mapped_narrowed (hr : r.WellFormed)
    (h : Schema.SingledOut domainOf r.schema s' m c single t)
    (hmapped : MeasuresMapped domainOf f s' r mapped) :
    ∃ made, mapMeasuresRow t label f (r.narrowed single label') = .ok made ∧
      MeasuresMapped domainOf f t (r.narrowed single label') made := by
  obtain ⟨-, hfits⟩ :=
    Draft.wellFormed_build (memberRow_eq_narrowed hr h.mem h.role h.single label')
  obtain ⟨made, hmade⟩ : ∃ made,
      mapMeasuresRow t label f (r.narrowed single label') = .ok made := by
    refine exists_mapMeasuresRow hfits h.mapMeasures fun m' hm' hrole' => ?_
    change m' ∈ single.components at hm'
    have hone : m' = m := by
      rw [h.single] at hm'
      rcases List.mem_append.1 hm' with hid | hone
      · rw [(Schema.mem_identifiers.1 hid).2] at hrole'
        nomatch hrole'
      · exact List.mem_singleton.1 hone
    subst hone
    obtain ⟨u, v, hu, hv, -⟩ := hmapped.measure m' h.mem h.role c h.image h.remeasured
    rw [Row.valueOf_narrowed hm']
    refine ⟨u, hu, fun c' hc' hrel => ⟨v, ?_⟩⟩
    have hsame : c' = c :=
      Schema.eq_of_name hc' h.mem_target (hrel.name.trans h.remeasured.name.symm)
    rw [hsame]
    exact hv
  exact ⟨made, hmade, measuresMapped_of_mapMeasuresRow hfits h.mapMeasures hmade⟩

/-- The row with its measures changed, narrowed to one of them, has the values of the row that is
narrowed first and has this measure changed afterwards. -/
theorem exists_singledOut (hr : r.WellFormed)
    (h : Schema.SingledOut domainOf r.schema s' m c single t)
    (hmapped : mapMeasuresRow s' label f r = .ok mapped)
    (hmember : memberRow c t label' mapped = .ok member) (first second : String) :
    ∃ made, mapMeasuresRow t second f (r.narrowed single first) = .ok made ∧
      member.SameValues made := by
  have hall := measuresMapped_of_mapMeasuresRow hr h.all hmapped
  obtain ⟨hschema, hfits⟩ := Draft.wellFormed_build hmember
  have htarget : t.components = mapped.schema.identifiers ++ [c] := by
    rw [hall.schema, Schema.identifiers_of_mapMeasures h.all]
    exact h.target
  have himage : c ∈ mapped.schema.components := by
    rw [hall.schema]
    exact h.image
  cases hmember.symm.trans
    (memberRow_eq_narrowed hall.wellFormed himage h.role_image htarget label')
  obtain ⟨made, hmade, hone⟩ := exists_mapped_narrowed hr h hall
  refine ⟨made, hmade, hfits.sameValues hone.wellFormed hone.schema.symm fun k hk => ?_⟩
  change k ∈ t.components at hk
  rw [Row.get?_narrowed hk]
  rw [h.target] at hk
  rcases List.mem_append.1 hk with hid | hlast
  · obtain ⟨hmem, hidentifier⟩ := Schema.mem_identifiers.1 hid
    have hrole : k.role ≠ .measure := by
      rw [hidentifier]
      decide
    have hsingle : k ∈ single.components := by
      rw [h.single]
      exact List.mem_append_left _ hid
    rw [hone.kept k hsingle hrole, Row.valueOf_narrowed hsingle, Row.valueOf,
      hall.kept k hmem hrole, Option.getD_some]
  · rw [List.mem_singleton] at hlast
    subst hlast
    have hsingle : m ∈ single.components := by
      rw [h.single]
      exact List.mem_append_right _ List.mem_cons_self
    obtain ⟨u, v, hu, hv, hget⟩ := hall.measure m h.mem h.role k h.image h.remeasured
    obtain ⟨u', v', hu', hv', hget'⟩ :=
      hone.measure m hsingle h.role k h.mem_target h.remeasured
    rw [Row.valueOf_narrowed hsingle] at hu'
    cases hu.symm.trans hu'
    cases hv.symm.trans hv'
    rw [hget', Row.valueOf, hget, Option.getD_some]

end DataSet

/-! ## Operators -/

/-- Taking a component makes a dataset of a dataset, row by row. -/
theorem Expr.eval_member_eq_ok {x : Expr} {name : String} {scope : Scope} {out : DataSet} :
    (member x name).eval scope = .ok (.dataset out) ↔ ∃ d target c,
      x.eval scope = .ok (.dataset d) ∧ d.schema.membership name = .ok target ∧
        d.schema.require name = .ok c ∧
        d.mapRows target (DataSet.memberRow c target (member x name).text) = out := by
  constructor
  · intro h
    obtain ⟨v, hv, h⟩ := bind_eq_ok.1 h
    obtain ⟨d, hd, h⟩ := bind_eq_ok.1 h
    cases Value.asDataSet_eq_ok.1 hd
    obtain ⟨_, hout, heq⟩ := map_eq_ok.1 h
    cases heq
    obtain ⟨target, htarget, hout⟩ := bind_eq_ok.1 hout
    obtain ⟨c, hc, hout⟩ := bind_eq_ok.1 hout
    exact ⟨d, target, c, hv, htarget, hc, Except.ok.inj hout⟩
  · rintro ⟨d, target, c, hx, htarget, hc, rfl⟩
    have hmember : d.membership name (member x name).text =
        .ok (d.mapRows target (DataSet.memberRow c target (member x name).text)) :=
      bind_eq_ok.2 ⟨target, htarget, bind_eq_ok.2 ⟨c, hc, rfl⟩⟩
    exact bind_eq_ok.2 ⟨_, hx, bind_eq_ok.2 ⟨d, rfl, map_eq_ok.2 ⟨_, hmember, rfl⟩⟩⟩

/-- An operator with a place for a dataset: a unary one, or a binary one with another operand on the
right or on the left. -/
inductive Expr.ElementWise where
  | unary (op : UnaryOp)
  | besideRight (op : BinaryOp) (right : Expr)
  | besideLeft (op : BinaryOp) (left : Expr)

namespace Expr.ElementWise

/-- The operator applied. -/
def on : ElementWise → Expr → Expr
  | unary op, x => .unary op x
  | besideRight op right, x => .binary op x right
  | besideLeft op left, x => .binary op left x

/-- The other operand, if there is one, is a scalar. -/
def BesideScalar (scope : Scope) : ElementWise → Prop
  | unary _ => True
  | besideRight _ y | besideLeft _ y => ∃ v, y.eval scope = .ok (.scalar v)

/-- What such an operator does to a dataset it does to the measures, whichever dataset it is. -/
theorem exists_onMeasures {f : ElementWise} {scope : Scope} (hf : f.BesideScalar scope) :
    ∃ (domainOf : Component → Except EvalError Domain) (apply : Scalar → Except EvalError Scalar),
      ∀ (x : Expr) (d : DataSet), x.eval scope = .ok (.dataset d) →
        (f.on x).eval scope = (do
          let target ← d.schema.mapMeasures domainOf
          pure (.dataset (d.mapMeasures target (f.on x).text apply))) := by
  cases f with
  | unary op =>
    refine ⟨fun m => op.resultDomain? m.domain, op.apply, fun x d hx => ?_⟩
    show (x.eval scope >>= _) = _
    rw [hx]
    rfl
  | besideRight op right =>
    obtain ⟨v, hv⟩ := hf
    refine ⟨fun m => op.resultDomain? m.domain v.domain, fun u => op.apply u v, fun x d hx => ?_⟩
    show (x.eval scope >>= fun l => right.eval scope >>= _) = _
    rw [hx, hv]
    rfl
  | besideLeft op left =>
    obtain ⟨v, hv⟩ := hf
    refine ⟨fun m => op.resultDomain? v.domain m.domain, fun u => op.apply v u, fun x d hx => ?_⟩
    show (left.eval scope >>= fun l => x.eval scope >>= _) = _
    rw [hv, ok_bind, hx]
    rfl

end Expr.ElementWise

/-- Where an operator is applied to a dataset and then one of its measures is taken, and this
drains, the measure can be taken first and the operator applied afterwards: this drains as well, has
the same schema, and has the same values in its rows, in the same order. -/
theorem member_elementWise {f : Expr.ElementWise} {x : Expr} {name : String} {scope : Scope}
    {d before : DataSet} {m : Component} {rows : List Row} (hf : f.BesideScalar scope)
    (hx : x.eval scope = .ok (.dataset d)) (hd : d.WellFormed)
    (hm : d.schema.component? name = some m) (hrole : m.role = .measure)
    (hbefore : (Expr.member (f.on x) name).eval scope = .ok (.dataset before))
    (hrows : before.collect = .ok rows) :
    ∃ after made, (f.on (.member x name)).eval scope = .ok (.dataset after) ∧
      after.schema = before.schema ∧ after.collect = .ok made ∧
      List.Forall₂ Row.SameValues rows made := by
  obtain ⟨domainOf, apply, heval⟩ := Expr.ElementWise.exists_onMeasures hf
  obtain ⟨all, t, c, hall, ht, hc, rfl⟩ := Expr.eval_member_eq_ok.1 hbefore
  obtain ⟨s', hs', hall⟩ := bind_eq_ok.1 ((heval x d hx).symm.trans hall)
  cases hall
  obtain ⟨c', single, hc', hsingle, hschemas⟩ :=
    Schema.singledOut_of_membership hs' hm hrole ht
  cases hc.symm.trans hc'
  obtain ⟨mapped, hmapped, hmembers⟩ := DataSet.collect_mapRows_eq_ok.1 hrows
  obtain ⟨given, hgiven, hmaps⟩ := DataSet.collect_mapRows_eq_ok.1 hmapped
  let first := (Expr.member x name).text
  let second := (f.on (.member x name)).text
  obtain ⟨made, hmade, hsame⟩ : ∃ made,
      List.Forall₂ (fun r made => DataSet.mapMeasuresRow t second apply (r.narrowed single first) =
        .ok made) given made ∧
      List.Forall₂ (fun made member => Row.SameValues member made) made rows := by
    refine exists_forall₂_between ((forall₂_mem (forall₂_comp hmaps hmembers)).imp ?_)
    rintro r member ⟨⟨mapped, hmap, hmember⟩, hr, -⟩
    obtain ⟨hschema, hfits⟩ := hd.of_mem hgiven hr
    rw [← hschema] at hschemas
    exact DataSet.exists_singledOut hfits hschemas hmap hmember first second
  have hone : (Expr.member x name).eval scope =
      .ok (.dataset (d.mapRows single (DataSet.memberRow m single first))) :=
    Expr.eval_member_eq_ok.2 ⟨d, single, m, hx, hsingle, Schema.require_eq_ok.2 hm, rfl⟩
  have hnarrowed : (d.mapRows single (DataSet.memberRow m single first)).collect =
      .ok (given.map fun r => r.narrowed single first) := by
    refine DataSet.collect_mapRows_eq_ok.2 ⟨given, hgiven, ?_⟩
    rw [List.forall₂_map_right_iff, List.forall₂_same]
    intro r hr
    obtain ⟨hschema, hfits⟩ := hd.of_mem hgiven hr
    rw [← hschema] at hschemas
    exact DataSet.memberRow_eq_narrowed hfits hschemas.mem hrole hschemas.single first
  refine ⟨_, made, (heval _ _ hone).trans (bind_eq_ok.2 ⟨t, hschemas.mapMeasures, rfl⟩), rfl, ?_,
    hsame.flip⟩
  exact DataSet.collect_mapRows_eq_ok.2 ⟨_, hnarrowed, List.forall₂_map_left_iff.2 hmade⟩

/-- The negated measure, under a name that differs in letter case. -/
theorem member_elementWise_negated :
    keyedDataSet.WellFormed ∧ keyed.component? "M" = some ⟨"m", .measure, .integer⟩ ∧
      ∃ after made, (Expr.unary .neg (.member (.var "ds") "M")).eval keyedScope =
          .ok (.dataset after) ∧
        after.schema = keyed ∧ after.collect = .ok made ∧
        made.map Row.values = [[.string "a", .integer (-1)], [.string "b", .null .integer]] := by
  have hx : (Expr.var "ds").eval keyedScope = .ok (.dataset keyedDataSet) := rfl
  have hd : keyedDataSet.WellFormed := DataSet.wellFormed_named named_keyedDataSet
  have hm : keyed.component? "M" = some ⟨"m", .measure, .integer⟩ := rfl
  obtain ⟨before, hbefore, hschema, hrows⟩ : ∃ before,
      (Expr.member (.unary .neg (.var "ds")) "M").eval keyedScope = .ok (.dataset before) ∧
        before.schema = keyed ∧ before.collect = .ok
          [⟨keyed, [.string "a", .integer (-1)], .node "-ds#M" [.node "-ds" [.known "ds"]]⟩,
            ⟨keyed, [.string "b", .null .integer], .node "-ds#M" [.node "-ds" [.known "ds"]]⟩] :=
    ⟨_, rfl, rfl, rfl⟩
  obtain ⟨after, made, hafter, hsame, hmade, hvalues⟩ :=
    member_elementWise (f := .unary .neg) trivial hx hd hm rfl hbefore hrows
  refine ⟨hd, hm, after, made, hafter, hsame.trans hschema, hmade, ?_⟩
  exact (map_eq_map_of_forall₂ hvalues fun _ _ h => h.2).symm

end DataCube
