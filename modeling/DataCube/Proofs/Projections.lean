import DataCube.Proofs.Identifiers

/-!
# Keeping and dropping

To keep some components and to drop them are two sides of one cut.  Both look the names up in the
same way and refuse the same names, and where they do not, each component that is no identifier goes
to one side.  The rows on either side are the rows of the operand with fewer components.

* `Schema.Complementary`: what the two projections on the same names amount to.
* `Schema.complementary_of_refused`, `Schema.complementary_of_found`: the two outcomes, of which
  `Schema.complementary` says that there is always one.
* `Row.narrowed`: a row with fewer components.  `DataSet.projectRow_eq_narrowed` says that narrowing
  a row never fails.
* `DataSet.Narrowed`: the rows of a dataset, one by one, with the components of a schema only.
-/

namespace DataCube

/-! ## Schemas -/

namespace Schema

variable {s : Schema} {name : String} {names : List String}

theorem requireOther_missing (use : ComponentUse) (h : s.component? name = none) :
    s.requireOther use name = .error (.missingComponent name s) := by
  unfold requireOther require
  rw [h]
  rfl

theorem requireOther_identifier {c : Component} (use : ComponentUse)
    (h : s.component? name = some c) (hrole : c.role = .identifier) :
    s.requireOther use name = .error (.incompatibleRole use c.name .measure) := by
  unfold requireOther
  rw [require_eq_ok.2 h, ok_bind, if_pos hrole]
  rfl

/-- The names refer to components that can be projected away. -/
def Offers (s : Schema) (names : List String) : Prop :=
  ∀ n ∈ names, ∃ c, s.component? n = some c ∧ c.role ≠ .identifier

/-- What keeping and dropping the same names amounts to.  Both are refused because of the first name
that refers to no component, or to an identifier, with errors that differ in the name of the
operation alone.  Or else the components are divided up: the identifiers are on both sides and every
other one is on one side, where it is kept if one of the names refers to it. -/
inductive Complementary (s : Schema) (names : List String) :
    Except EvalError Schema → Except EvalError Schema → Prop where
  | missing {before after : List String} {name : String}
      (hnames : names = before ++ name :: after) (hbefore : s.Offers before)
      (hnone : s.component? name = none) :
      Complementary s names (.error (.missingComponent name s))
        (.error (.missingComponent name s))
  | identifier {before after : List String} {name : String} {c : Component}
      (hnames : names = before ++ name :: after) (hbefore : s.Offers before)
      (hc : s.component? name = some c) (hrole : c.role = .identifier) :
      Complementary s names (.error (.incompatibleRole .keep c.name .measure))
        (.error (.incompatibleRole .drop c.name .measure))
  | divided {kept rest : Schema} (hnames : s.Offers names)
      (hkept : kept.components.Sublist s.components) (hrest : rest.components.Sublist s.components)
      (hidentifiers : ∀ c ∈ s.identifiers, c ∈ kept.components ∧ c ∈ rest.components)
      (hothers : ∀ c ∈ s.components, c.role ≠ .identifier →
        (c ∈ kept.components ↔ ∃ n ∈ names, s.component? n = some c) ∧
          (c ∈ rest.components ↔ c ∉ kept.components)) :
      Complementary s names (.ok kept) (.ok rest)

variable {before after : List String}

/-- Nothing is looked up behind the first name that is refused. -/
theorem mapM_requireOther_eq_error {use : ComponentUse} {e : EvalError}
    (hnames : names = before ++ name :: after) (hbefore : s.Offers before)
    (hname : s.requireOther use name = .error e) :
    names.mapM (s.requireOther use) = .error e := by
  refine mapM_eq_error.2 ⟨before, name, after, hnames, fun n hn => ?_, hname⟩
  obtain ⟨c, hc⟩ := hbefore n hn
  exact ⟨c, requireOther_eq_ok.2 hc⟩

/-- A name that is refused by one operation is refused by the other. -/
theorem complementary_of_refused (hnames : names = before ++ name :: after)
    (hbefore : s.Offers before)
    (hname : ∀ c, s.component? name = some c → c.role = .identifier) :
    s.Complementary names (s.keep names) (s.drop names) := by
  have hkeep {e : EvalError} (he : s.requireOther .keep name = .error e) :
      s.keep names = .error e := by
    unfold keep
    rw [mapM_requireOther_eq_error hnames hbefore he, error_bind]
  have hdrop {e : EvalError} (he : s.requireOther .drop name = .error e) :
      s.drop names = .error e := by
    unfold drop
    rw [mapM_requireOther_eq_error hnames hbefore he, error_bind]
  cases hfind : s.component? name with
  | none =>
    rw [hkeep (requireOther_missing .keep hfind), hdrop (requireOther_missing .drop hfind)]
    exact .missing hnames hbefore hfind
  | some c =>
    have hrole := hname c hfind
    rw [hkeep (requireOther_identifier .keep hfind hrole),
      hdrop (requireOther_identifier .drop hfind hrole)]
    exact .identifier hnames hbefore hfind hrole

/-- Names that all refer to components that can be projected away divide up the components. -/
theorem complementary_of_found {cs : List Component}
    (hfound : List.Forall₂ (fun n c => s.component? n = some c ∧ c.role ≠ .identifier) names cs) :
    s.Complementary names (s.keep names) (s.drop names) := by
  have hcs (use : ComponentUse) : names.mapM (s.requireOther use) = .ok cs :=
    mapM_eq_ok.2 (hfound.imp fun _ _ h => requireOther_eq_ok.2 h)
  have hkeep : s.keep names =
      .ok (s.restrict fun c => c.role = .identifier || cs.any (·.name = c.name)) :=
    bind_eq_ok.2 ⟨cs, hcs .keep, rfl⟩
  have hdrop : s.drop names = .ok (s.restrict fun c => ! cs.any (·.name = c.name)) :=
    bind_eq_ok.2 ⟨cs, hcs .drop, rfl⟩
  -- components are compared by name, which tells those of one schema apart
  have hnamed : ∀ c ∈ s.components,
      cs.any (·.name = c.name) = true ↔ ∃ n ∈ names, s.component? n = some c := by
    intro c hc
    rw [List.any_eq_true]
    constructor
    · rintro ⟨c', hc', hname⟩
      obtain ⟨n, hn, hfind, -⟩ := exists_of_forall₂ hfound.flip hc'
      cases eq_of_name (mem_of_component? hfind) hc (of_decide_eq_true hname)
      exact ⟨n, hn, hfind⟩
    · rintro ⟨n, hn, hfind⟩
      obtain ⟨c', hc', hfind', -⟩ := exists_of_forall₂ hfound hn
      cases hfind.symm.trans hfind'
      exact ⟨c, hc', decide_eq_true rfl⟩
  rw [hkeep, hdrop]
  refine .divided (fun n hn => ?_) List.filter_sublist List.filter_sublist (fun c hc => ?_)
    fun c hc hrole => ?_
  · obtain ⟨c, -, hc⟩ := exists_of_forall₂ hfound hn
    exact ⟨c, hc⟩
  · exact ⟨(mem_identifiers.1 (identifiers_keep hkeep hc)).1,
      (mem_identifiers.1 (identifiers_drop hdrop hc)).1⟩
  · show (c ∈ s.components.filter _ ↔ _) ∧ (c ∈ s.components.filter _ ↔ c ∉ s.components.filter _)
    simp only [List.mem_filter, hc, true_and, hrole, decide_false, Bool.false_or, ← hnamed c hc,
      Bool.not_eq_true', Bool.not_eq_true]

theorem complementary (s : Schema) (names : List String) :
    s.Complementary names (s.keep names) (s.drop names) := by
  cases hcs : names.mapM (s.requireOther .keep) with
  | ok cs =>
    refine complementary_of_found ((mapM_eq_ok.1 hcs).imp fun _ _ h => ?_)
    exact requireOther_eq_ok.1 h
  | error e =>
    obtain ⟨before, name, after, hnames, hbefore, hname⟩ := mapM_eq_error.1 hcs
    refine complementary_of_refused hnames (fun n hn => ?_) fun c hc => ?_
    · obtain ⟨c, hc⟩ := hbefore n hn
      exact ⟨c, requireOther_eq_ok.1 hc⟩
    · by_contra hrole
      rw [requireOther_eq_ok.2 ⟨hc, hrole⟩] at hname
      nomatch hname

end Schema

/-! ## Rows -/

/-- The row with the components of a schema only, each with the value it has. -/
def Row.narrowed (r : Row) (target : Schema) (label : String) : Row :=
  ⟨target, target.components.map r.valueOf, DataSet.derivedLineage label r⟩

section

variable {r : Row} {target : Schema} {label : String} {c : Component}

theorem Row.get?_narrowed (hc : c ∈ target.components) :
    (r.narrowed target label).get? c.name = some (r.valueOf c) :=
  get?_map hc

theorem Row.valueOf_narrowed (hc : c ∈ target.components) :
    (r.narrowed target label).valueOf c = r.valueOf c := by
  rw [valueOf, get?_narrowed hc, Option.getD_some]

/-- A row is narrowed to components of its schema as it is. -/
theorem DataSet.projectRow_eq_narrowed (hr : r.WellFormed)
    (htarget : ∀ c ∈ target.components, c ∈ r.schema.components) :
    projectRow target label r = .ok (r.narrowed target label) := by
  have hvalues : (target.components.filterMap fun c => (r.get? c.name).map fun v => (c, v)) =
      target.components.map fun c => (c, r.valueOf c) := by
    rw [← List.filterMap_eq_map]
    refine List.filterMap_congr fun c hc => ?_
    rw [hr.get?_eq_valueOf (htarget c hc)]
    rfl
  unfold projectRow
  rw [hvalues]
  refine Draft.build_eq_map _ fun c hc => ⟨?_, hr.describes_valueOf (htarget c hc)⟩
  exact Draft.get?_setAll_map (fun _ hk => hk) hc (Or.inl ⟨hc, rfl⟩)

end

/-- The rows of a dataset with the components of a schema only, one by one, and each component with
the value it had.  The rows end as they did. -/
structure DataSet.Narrowed (d out : DataSet) (target : Schema) : Prop where
  schema : out.schema = target
  fault : out.stream.fault = d.stream.fault
  rows : List.Forall₂ (fun r made => made.schema = target ∧ ∀ c ∈ target.components,
    ∃ v, r.get? c.name = some v ∧ made.get? c.name = some v) d.stream.rows out.stream.rows

theorem DataSet.narrowed_project {d : DataSet} (hd : d.WellFormed) {target : Schema}
    (htarget : target.components.Sublist d.schema.components) (label : String) :
    d.Narrowed (d.project target label) target := by
  have hstream : (d.project target label).stream =
      ⟨d.stream.rows.map fun r => r.narrowed target label, d.stream.fault⟩ := by
    refine RowStream.mapRows_eq ?_
    rw [List.forall₂_map_right_iff, List.forall₂_same]
    intro r hr
    obtain ⟨hschema, hfits⟩ := hd r hr
    exact projectRow_eq_narrowed hfits fun c hc => hschema ▸ htarget.subset hc
  refine ⟨rfl, by rw [hstream], ?_⟩
  rw [hstream, List.forall₂_map_right_iff, List.forall₂_same]
  intro r hr
  obtain ⟨hschema, hfits⟩ := hd r hr
  refine ⟨rfl, fun c hc => ⟨r.valueOf c, ?_, Row.get?_narrowed hc⟩⟩
  exact hfits.get?_eq_valueOf (hschema ▸ htarget.subset hc)

/-! ## Both sides -/

/-- For every schema and all names, keeping and dropping are refused together, or divide up the
components between them; and for a dataset of the schema either of them gives the rows of the
dataset, in their order, with the values that they have for the components of that side. -/
theorem keep_drop_complementary (s : Schema) (names : List String) :
    s.Complementary names (s.keep names) (s.drop names) ∧
      ∀ (x : Expr) (scope : Scope) (d : DataSet), x.eval scope = .ok (.dataset d) → d.WellFormed →
        d.schema = s →
          (∀ kept, s.keep names = .ok kept → ∃ out,
            (Expr.keep x names).eval scope = .ok (.dataset out) ∧ d.Narrowed out kept) ∧
          ∀ rest, s.drop names = .ok rest → ∃ out,
            (Expr.drop x names).eval scope = .ok (.dataset out) ∧ d.Narrowed out rest := by
  refine ⟨s.complementary names, ?_⟩
  rintro x scope d hx hd rfl
  constructor
  · intro kept hkept
    obtain ⟨keep, rfl⟩ := Schema.keep_eq_ok hkept
    refine ⟨_, ?_, d.narrowed_project hd List.filter_sublist (Expr.keep x names).text⟩
    exact bind_eq_ok.2 ⟨_, hx, bind_eq_ok.2 ⟨d, rfl, bind_eq_ok.2 ⟨_, hkept, rfl⟩⟩⟩
  · intro rest hrest
    obtain ⟨keep, rfl⟩ := Schema.drop_eq_ok hrest
    refine ⟨_, ?_, d.narrowed_project hd List.filter_sublist (Expr.drop x names).text⟩
    exact bind_eq_ok.2 ⟨_, hx, bind_eq_ok.2 ⟨d, rfl, bind_eq_ok.2 ⟨_, hrest, rfl⟩⟩⟩

/-- A name that differs in letter case, given twice: all of the dataset is kept, and its identifier
is left when the same names are dropped. -/
theorem keep_drop_complementary_keyed :
    keyedDataSet.WellFormed ∧ ∃ rest kept left, keyed.keep ["M", "m"] = .ok keyed ∧
      keyed.drop ["M", "m"] = .ok rest ∧ rest.components = [⟨"k", .identifier, .string⟩] ∧
      (Expr.keep (.var "ds") ["M", "m"]).eval keyedScope = .ok (.dataset kept) ∧
      keyedDataSet.Narrowed kept keyed ∧
      (Expr.drop (.var "ds") ["M", "m"]).eval keyedScope = .ok (.dataset left) ∧
      keyedDataSet.Narrowed left rest := by
  have hx : (Expr.var "ds").eval keyedScope = .ok (.dataset keyedDataSet) := rfl
  have hd : keyedDataSet.WellFormed := DataSet.wellFormed_named named_keyedDataSet
  have hkept : keyed.keep ["M", "m"] = .ok keyed := rfl
  obtain ⟨rest, hrest, hcomponents⟩ : ∃ rest, keyed.drop ["M", "m"] = .ok rest ∧
      rest.components = [⟨"k", .identifier, .string⟩] := ⟨_, rfl, rfl⟩
  obtain ⟨-, hsides⟩ := keep_drop_complementary keyed ["M", "m"]
  obtain ⟨hkeep, hdrop⟩ := hsides (.var "ds") keyedScope keyedDataSet hx hd rfl
  obtain ⟨kept, heval, hnarrowed⟩ := hkeep keyed hkept
  obtain ⟨left, heval', hnarrowed'⟩ := hdrop rest hrest
  exact ⟨hd, rest, kept, left, hkept, hrest, hcomponents, heval, hnarrowed, heval', hnarrowed'⟩

end DataCube
