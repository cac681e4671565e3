import DataCube.Evaluation
import DataCube.Proofs.Grouping
import DataCube.Proofs.Safety.Reductions
import DataCube.Proofs.Safety.Schemas

/-!
# Datasets that only fail as tolerated

Every operation that makes rows takes them apart, computes values and builds rows of a schema that
was derived before.  On rows whose values have the domains of their components every value is there
and fits, so building cannot fail, and what is left are the errors of the operation itself.

* `DataSet.Sound t`: well-formed rows of known domains, and a stream that ends with no other error
  than those let pass.
* `DataSet.Sound.membership`, `filter`, `project`, `mapMeasures`, `computed`: what is made row by
  row is sound as well.
-/

namespace DataCube

variable {t : Tolerance}

/-! ## Streams -/

namespace RowStream

variable {fails : EvalError → Prop} {fault : Option EvalError} {rows : List Row}

theorem fault_mapFrom {f : Row → Except EvalError Row} (hfault : ∀ e, fault = some e → fails e)
    (hf : ∀ r ∈ rows, Outcome fails (fun _ => True) (f r)) (e : EvalError)
    (he : (mapFrom f fault rows).fault = some e) : fails e := by
  induction rows with
  | nil => exact hfault e he
  | cons r rows ih =>
    obtain ⟨hr, hrest⟩ := List.forall_mem_cons.1 hf
    unfold mapFrom at he
    split at he
    · exact ih hrest he
    · rename_i e' hfr
      rw [hfr] at hr
      exact Option.some.inj he ▸ hr

theorem fault_filterFrom {p : Row → Except EvalError Bool} (hfault : ∀ e, fault = some e → fails e)
    (hp : ∀ r ∈ rows, Outcome fails (fun _ => True) (p r)) (e : EvalError)
    (he : (filterFrom p fault rows).fault = some e) : fails e := by
  induction rows with
  | nil => exact hfault e he
  | cons r rows ih =>
    obtain ⟨hr, hrest⟩ := List.forall_mem_cons.1 hp
    unfold filterFrom at he
    split at he
    · exact ih hrest he
    · exact ih hrest he
    · rename_i e' hpr
      rw [hpr] at hr
      exact Option.some.inj he ▸ hr

theorem fault_ofResult {x : Except EvalError (List Row)} (hx : Outcome fails (fun _ => True) x)
    (e : EvalError) (he : (ofResult x).fault = some e) : fails e := by
  cases x with
  | ok rows => nomatch he
  | error e' => exact Option.some.inj he ▸ hx

end RowStream

/-! ## Sound datasets -/

/-- Well-formed rows of known domains, behind which there is no other error than those let pass. -/
structure DataSet.Sound (t : Tolerance) (d : DataSet) : Prop where
  wellFormed : d.WellFormed
  schema : d.schema.Sound t
  fault : ∀ e, d.stream.fault = some e → t.error e

namespace DataSet

variable {d : DataSet} {target : Schema} {label : String}

namespace Sound

theorem known (h : d.Sound t) {c : Component} (hc : c ∈ d.schema.components) :
    c.domain ≠ .unknown :=
  (h.schema c hc).1

/-- The rows have the schema of the dataset, with a value of its domain for every component. -/
theorem row (h : d.Sound t) {r : Row} (hr : r ∈ d.stream.rows) : r.schema = d.schema ∧ r.Exact := by
  obtain ⟨hschema, hfits⟩ := h.wellFormed r hr
  refine ⟨hschema, hfits.exact fun c hc => ?_⟩
  rw [hschema] at hc
  exact h.known hc

theorem collect (h : d.Sound t) :
    Outcome t.error (fun rows => ∀ r ∈ rows, r.schema = d.schema ∧ r.Exact) d.collect := by
  unfold DataSet.collect RowStream.collect
  cases hfault : d.stream.fault with
  | none => exact fun r hr => h.row hr
  | some e => exact h.fault e hfault

theorem filter (h : d.Sound t) {p : Row → Except EvalError Bool}
    (hp : ∀ r, r.schema = d.schema → r.Exact → Outcome t.error (fun _ => True) (p r)) :
    (d.filter p).Sound t where
  wellFormed := wellFormed_filter h.wellFormed p
  schema := h.schema
  fault := RowStream.fault_filterFrom h.fault fun r hr => hp r (h.row hr).1 (h.row hr).2

theorem mapRows (h : d.Sound t) (htarget : target.Sound t) {f : Row → Except EvalError Row}
    (hwellFormed : (d.mapRows target f).WellFormed)
    (hf : ∀ r, r.schema = d.schema → r.Exact → Outcome t.error (fun _ => True) (f r)) :
    (d.mapRows target f).Sound t where
  wellFormed := hwellFormed
  schema := htarget
  fault := RowStream.fault_mapFrom h.fault fun r hr => hf r (h.row hr).1 (h.row hr).2

end Sound

end DataSet

namespace DataSet.Sound

variable {d : DataSet} {target : Schema}

/-! ## Row by row -/

theorem membership (h : d.Sound t) {name : String} (htarget : d.schema.membership name = .ok target)
    (label : String) : ∃ m, d.membership name label = .ok m ∧ m.schema = target ∧ m.Sound t := by
  have hsound := h.schema.membership htarget
  have heq := htarget
  obtain ⟨member, hmember, hrequire, hrole, rfl⟩ := Schema.membership_eq_ok heq
  refine ⟨_, bind_eq_ok.2 ⟨_, htarget, bind_eq_ok.2 ⟨member, hrequire, rfl⟩⟩, rfl, ?_⟩
  refine h.mapRows hsound (wellFormed_mapRows fun _ _ hr => Draft.wellFormed_build hr)
    fun r hschema hexact => ?_
  obtain ⟨v, hv, -, hdomain⟩ := hexact.exists_entry (hschema ▸ hmember)
  refine Draft.outcome_of_supplies _ fun c hc => ?_
  rw [hv, Option.getD_some]
  rcases Schema.mem_insert hc with rfl | ⟨hc, hname⟩
  · refine Draft.supplies_set (fun hne => absurd rfl hne) fun _ => ?_
    rw [hdomain]
    exact Domain.accepts_self _
  · obtain ⟨hc, hidentifier⟩ := List.mem_filter.1 hc
    rw [← hschema] at hc
    obtain ⟨w, -, hentry, -⟩ := hexact.exists_entry hc
    refine Draft.supplies_set (fun _ => ?_) fun heq => absurd heq.symm hname
    refine Draft.supplies_setAll (Or.inr ⟨(c, w), ?_, rfl⟩) fun e he heq => ?_
    · exact Row.mem_entriesWith.2 ⟨hentry, of_decide_eq_true hidentifier⟩
    · exact hexact.accepts hc (Row.mem_entriesWith.1 he).1 heq

/-- The components kept have values in every row. -/
theorem project (h : d.Sound t) (keep : Component → Bool) (label : String) :
    (d.project (d.schema.restrict keep) label).Sound t := by
  have hsound := h.schema.restrict keep
  refine h.mapRows hsound (wellFormed_project d _ label) fun r hschema hexact => ?_
  refine Draft.outcome_of_supplies _ fun c hc => ?_
  have hmem : c ∈ r.schema.components := by
    rw [hschema]
    exact List.mem_of_mem_filter hc
  obtain ⟨v, hv, -, -⟩ := hexact.exists_entry hmem
  refine Draft.supplies_setAll (Or.inr ⟨(c, v), ?_, rfl⟩) fun e he heq => ?_
  · exact List.mem_filterMap.2 ⟨c, hc, by rw [hv, Option.map_some]⟩
  · obtain ⟨c', hc', he⟩ := List.mem_filterMap.1 he
    have hmem' : c' ∈ r.schema.components := by
      rw [hschema]
      exact List.mem_of_mem_filter hc'
    obtain ⟨v', hv', hentry, -⟩ := hexact.exists_entry hmem'
    rw [hv', Option.map_some] at he
    cases he
    exact hexact.accepts hmem hentry heq

/-- New values for the measures fit the domains that typing finds for them. -/
theorem mapMeasures (h : d.Sound t) {domainOf : Component → Except EvalError Domain}
    {f : Scalar → Except EvalError Scalar} (hsound : target.Sound t)
    (htarget : d.schema.mapMeasures domainOf = .ok target) (label : String)
    (hf : ∀ m d' v, domainOf m = .ok d' → v.domain = m.domain →
      Outcome t.error (fun w => w.domain = d') (f v)) :
    (d.mapMeasures target label f).Sound t := by
  refine h.mapRows hsound (wellFormed_mapMeasures d target label f) fun r hschema hexact => ?_
  rw [← hschema] at htarget
  -- every entry keeps its component and has the domain that the target asks for
  let Fresh (e e' : Component × Scalar) : Prop := e'.1 = e.1 ∧
    ∀ c', Schema.Remeasured domainOf e.1 c' → e'.2.domain = c'.domain
  refine Outcome.bind (Outcome.mapM (R := Fresh) fun e he => ?_) fun entries _ hentries => ?_
  · obtain ⟨hmem, hdomain⟩ := Row.Fits.entry hexact he
    split
    · rename_i hrole
      obtain ⟨c', -, hc'⟩ := Schema.exists_remeasured htarget hmem
      refine Outcome.map (hf e.1 c'.domain e.2 (hc'.measure hrole) hdomain.symm) fun w _ hw => ?_
      refine ⟨rfl, fun c'' hc'' => ?_⟩
      have hsame := (hc'.measure hrole).symm.trans (hc''.measure hrole)
      exact hw.trans (Except.ok.inj hsame)
    · rename_i hrole
      refine ⟨rfl, fun c' hc' => ?_⟩
      rw [hc'.other hrole]
      exact hdomain.symm
  · refine Draft.outcome_of_supplies _ fun c' hc' => ?_
    obtain ⟨c, hc, hrel⟩ := Schema.exists_source htarget hc'
    obtain ⟨v, -, hentry, -⟩ := hexact.exists_entry hc
    obtain ⟨e', he', heq, -⟩ := exists_of_forall₂ hentries hentry
    refine Draft.supplies_setAll (Or.inr ⟨e', he', by rw [heq, hrel.name]⟩) fun e he hname => ?_
    obtain ⟨e₀, he₀, heq₀, hdomain⟩ := exists_of_forall₂ hentries.flip he
    have hmem := (Row.Fits.entry hexact he₀).1
    have hsource : Schema.Remeasured domainOf e₀.1 c' :=
      Schema.remeasured_of_name htarget hmem hc' (by rw [← heq₀, hname])
    rw [hdomain c' hsource]
    exact Domain.accepts_self _

/-- A computed value goes where its name says, and everything else stays. -/
theorem computed (h : d.Sound t) {new : Component} (hsound : (d.schema.insert new).Sound t)
    (label : String) {valueOf : Row → Except EvalError Scalar}
    (hvalue : ∀ r, r.schema = d.schema → r.Exact →
      Outcome t.error (fun v => v.domain = new.domain) (valueOf r)) :
    (d.mapRows (d.schema.insert new)
      (computedRow new (d.schema.insert new) label valueOf)).Sound t := by
  refine h.mapRows hsound (wellFormed_computed d new _ label valueOf) fun r hschema hexact => ?_
  refine Outcome.bind (hvalue r hschema hexact) fun v _ hv => ?_
  refine Draft.outcome_of_supplies _ fun c hc => ?_
  rcases Schema.mem_insert hc with rfl | ⟨hc, hname⟩
  · refine Draft.supplies_set (fun hne => absurd rfl hne) fun _ => ?_
    rw [hv]
    exact Domain.accepts_self _
  · rw [← hschema] at hc
    obtain ⟨w, -, hentry, -⟩ := hexact.exists_entry hc
    refine Draft.supplies_set (fun _ => ?_) fun heq => absurd heq.symm hname
    exact Draft.supplies_setAll (Or.inr ⟨(c, w), hentry, rfl⟩) fun e he heq =>
      hexact.accepts hc he heq

end DataSet.Sound

end DataCube
