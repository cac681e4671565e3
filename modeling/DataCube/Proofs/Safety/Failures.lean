import DataCube.Proofs.Safety.Evaluation

/-!
# How a typed expression can fail

Once an expression has a type, evaluation only fails by integer overflow, with three exceptions,
each of which a look at the expression and the names in it rules out:

* an aggregated sum of integers that no 64-bit integer equals becomes a number, which its column
  refuses;
* a measure is computed under a name whose normalized form the name does not refer to, so that it is
  missing right after it was defined;
* an analytic reducer looks up a measure whose stored name stands in quotes, and misses it.

`EvalError.Remains` lists these errors and what they come from, and `typed_failures` says that there
are no others.
-/

namespace DataCube

/-! ## Errors that remain -/

/-- The expressions that evaluating an expression can come to: its own, and those of the rules. -/
def Workspace.exprs (w : Workspace) (e : Expr) : List Expr := e :: w.rules.values.map Statement.expr

/-- The names that components are stored under: those of bound datasets, and those that computed
measures are given. -/
inductive StoredName (values : Bindings Value) (exprs : List Expr) : String → Prop where
  | bound {d : DataSet} {c : Component} :
      .dataset d ∈ values.values → c ∈ d.schema.components → StoredName values exprs c.name
  | computed {e x value : Expr} {name : String} :
      e ∈ exprs → e.Has (.compute x name value) → StoredName values exprs (normalizeName name)

/-- The errors that a type leaves possible. -/
inductive EvalError.Remains (values : Bindings Value) (exprs : List Expr) : EvalError → Prop where
  | overflow (operator : String) (operands : List Int64) :
      Remains values exprs (.integerOverflow operator operands)
  /-- A bound dataset ends with the error to begin with. -/
  | bound {d : DataSet} {err : EvalError} :
      .dataset d ∈ values.values → d.stream.fault = some err → Remains values exprs err
  | sum {e x : Expr} {groupBy : List String} (name : String) :
      e ∈ exprs → e.Has (.aggregate .sum x groupBy) →
      Remains values exprs (.incompatibleDomain (.valueOf name) .integer .number)
  | computed {e x value : Expr} {name : String} {s : Schema} :
      e ∈ exprs → e.Has (.compute x name value) → ¬ FindsItself name → s.component? name = none →
      Remains values exprs (.missingComponent name s)
  | quoted {e x : Expr} {r : Reducer} {window : WindowSpec} {name : String} {err : EvalError} :
      e ∈ exprs → e.Has (.analytic r x window) → StoredName values exprs name →
      NamePattern.unquote? name ≠ none → err.IsMismatch → Remains values exprs err

/-- Nothing that one of the exceptions could come from. -/
structure FreeOfSlips (values : Bindings Value) (exprs : List Expr) : Prop where
  bound : ∀ d, .dataset d ∈ values.values → ∀ err, d.stream.fault = some err → err.IsOverflow
  sum : ∀ e ∈ exprs, ∀ x groupBy, ¬ e.Has (.aggregate .sum x groupBy)
  computed : ∀ e ∈ exprs, ∀ x name value, e.Has (.compute x name value) → FindsItself name
  quoted : ∀ e ∈ exprs, ∀ r x window, e.Has (.analytic r x window) →
    ∀ name, StoredName values exprs name → NamePattern.unquote? name = none

variable {values : Bindings Value} {exprs : List Expr}

theorem FreeOfSlips.isOverflow (h : FreeOfSlips values exprs) {err : EvalError}
    (herr : err.Remains values exprs) : err.IsOverflow := by
  cases herr with
  | overflow operator operands => trivial
  | bound hd hfault => exact h.bound _ hd err hfault
  | sum name he hsum => exact absurd hsum (h.sum _ he _ _)
  | computed he hcompute hlost _ => exact absurd (h.computed _ he _ _ _ hcompute) hlost
  | quoted he hanalytic hname hquoted _ =>
    exact absurd (h.quoted _ he _ _ _ hanalytic _ hname) hquoted

/-! ## The tolerance -/

/-- Lets those errors pass. -/
def remaining (values : Bindings Value) (exprs : List Expr) : Tolerance where
  error := EvalError.Remains values exprs
  name := StoredName values exprs
  overflow
    | .integerOverflow operator operands, _ => .overflow operator operands

/-- The domain of a scalar and those of all components are known. -/
def Shape.Known : Shape → Prop
  | .scalar d => d ≠ .unknown
  | .dataset s => ∀ c ∈ s.components, c.domain ≠ .unknown
  | .unknown => False

/-- All constants of an expression have a known domain. -/
def Expr.ConstantsKnown (e : Expr) : Prop := ∀ v, e.Has (.constant v) → v.domain ≠ .unknown

theorem sound_bound {v : Value} (hmem : v ∈ values.values) (hwellFormed : v.WellFormed)
    (hknown : v.shape.Known) : v.Sound (remaining values exprs) := by
  cases v with
  | scalar v => exact hknown
  | dataset d =>
    exact ⟨hwellFormed, fun c hc => ⟨hknown c hc, .bound hmem hc⟩,
      fun err hfault => .bound hmem hfault⟩

/-- Every node is allowed, since what it can end in remains. -/
theorem sound_remaining {e : Expr} (he : e ∈ exprs) (hknown : e.ConstantsKnown) :
    e.Sound (remaining values exprs) := by
  intro n hn
  cases n with
  | constant v => exact hknown v hn
  | compute x name value =>
    refine ⟨.computed he hn, ?_⟩
    by_cases hfinds : FindsItself name
    · exact Or.inl hfinds
    · exact Or.inr fun s hs => .computed he hn hfinds hs
  | aggregate s x groupBy =>
    rintro rfl name
    exact .sum name he hn
  | analytic r x window =>
    by_cases hplain : ∀ name, StoredName values exprs name → NamePattern.unquote? name = none
    · exact Or.inl hplain
    · obtain ⟨name, hname⟩ := not_forall.1 hplain
      obtain ⟨hstored, hquoted⟩ := Classical.not_imp.1 hname
      exact Or.inr fun err herr => .quoted he hn hstored hquoted herr
  | _ => trivial

/-! ## Failures -/

/-- What a value yields to one who pulls it. -/
def Value.items : Value → List (Except EvalError Row)
  | .scalar _ => []
  | .dataset d => d.stream.items

theorem Value.Sound.mem_items {t : Tolerance} {v : Value} (h : v.Sound t) {err : EvalError}
    (herr : .error err ∈ v.items) : t.error err := by
  cases v with
  | scalar v => nomatch herr
  | dataset d =>
    exact DataSet.Sound.fault h err (RowStream.error_mem_items.1 herr)

/-- An expression that has a type has a value of this type.  What evaluation can fail with instead,
at once or when the rows are pulled, is integer overflow, an error that a bound dataset ends with
anyway, or one of the three exceptions; and where nothing in the expression, the rules or the names
gives rise to an exception, it is integer overflow. -/
theorem typed_failures {e : Expr} {values : Bindings Value} {workspace : Workspace} {m : Shape}
    (hvalues : ∀ v ∈ values.values, v.WellFormed ∧ v.shape.Known)
    (hconstants : ∀ x ∈ workspace.exprs e, x.ConstantsKnown)
    (hm : e.shape? (.engine values workspace) = .ok m) :
    Outcome (EvalError.Remains values (workspace.exprs e))
        (fun v => v.shape = m ∧
          ∀ err, .error err ∈ v.items → err.Remains values (workspace.exprs e))
        (e.eval (.engine values workspace)) ∧
      (FreeOfSlips values (workspace.exprs e) →
        Outcome EvalError.IsOverflow
          (fun v => v.shape = m ∧ ∀ err, .error err ∈ v.items → err.IsOverflow)
          (e.eval (.engine values workspace))) := by
  have hsound (x : Expr) (hx : x ∈ workspace.exprs e) :
      x.Sound (remaining values (workspace.exprs e)) := sound_remaining hx (hconstants x hx)
  have hscope : (Scope.engine values workspace).Sound (remaining values (workspace.exprs e)) :=
    .engine fun v hv => sound_bound hv (hvalues v hv).1 (hvalues v hv).2
  have houtcome := outcome_eval (hsound e List.mem_cons_self) hscope
    (fun s hs => hsound s.expr (List.mem_cons_of_mem e (List.mem_map_of_mem hs))) hm
  refine ⟨houtcome.mono fun v _ hv => ⟨hv.shape, fun err => hv.sound.mem_items⟩, fun hfree => ?_⟩
  refine (houtcome.mono_error fun err => hfree.isOverflow).mono fun v _ hv => ⟨hv.shape, ?_⟩
  exact fun err herr => hfree.isOverflow (hv.sound.mem_items herr)

/-- A bound dataset of the given rows. -/
def binding (schema : Schema) (rows : List (List Scalar)) : Bindings Value :=
  ⟨[("ds", .dataset ⟨schema, some "ds", .pure (.ofRows (rows.map fun values =>
    ⟨schema, values, .known "ds"⟩))⟩)]⟩

/-- The least integer for a measure. -/
def lowest : Bindings Value := binding keyed [[.string "a", .integer Int64.minValue]]

/-- The negated dataset. -/
def negation : Expr := .unary .neg (.var "ds")

theorem has_negation {n : Expr} (h : negation.Has n) : n = negation ∨ n = .var "ds" := by
  rcases Expr.has_iff.1 h with hself | ⟨x, hx, hn⟩
  · exact Or.inl hself
  · rw [List.mem_singleton.1 hx] at hn
    exact Or.inr (hn.eq_of_leaf rfl)

theorem freeOfSlips_negation : FreeOfSlips lowest [negation] where
  bound d hd err herr := by
    cases List.mem_singleton.1 hd
    nomatch herr
  sum e he x groupBy h := by
    rw [List.mem_singleton.1 he] at h
    rcases has_negation h with heq | heq <;> nomatch heq
  computed e he x name value h := by
    rw [List.mem_singleton.1 he] at h
    rcases has_negation h with heq | heq <;> nomatch heq
  quoted e he r x window h := by
    rw [List.mem_singleton.1 he] at h
    rcases has_negation h with heq | heq <;> nomatch heq

/-- The least integer has no negation. -/
theorem typed_failures_negation :
    negation.shape? (.engine lowest .empty) = .ok (.dataset keyed) ∧
      ∃ d, negation.eval (.engine lowest .empty) = .ok (.dataset d) ∧
        d.stream.items = [.error (.integerOverflow "-" [Int64.minValue])] ∧
        ∀ err, .error err ∈ d.stream.items → err.IsOverflow := by
  have htype : negation.shape? (.engine lowest .empty) = .ok (.dataset keyed) := rfl
  have hvalues : ∀ v ∈ lowest.values, v.WellFormed ∧ v.shape.Known := by
    intro v hv
    rw [List.mem_singleton.1 hv]
    refine ⟨fun r hr => ?_, show ∀ c ∈ keyed.components, c.domain ≠ .unknown by decide⟩
    rw [List.mem_singleton.1 hr]
    exact ⟨rfl, .cons (Or.inl rfl) (.cons (Or.inl rfl) .nil)⟩
  have hconstants : ∀ x ∈ Workspace.empty.exprs negation, x.ConstantsKnown := by
    intro x hx v hv
    rw [List.mem_singleton.1 hx] at hv
    rcases has_negation hv with heq | heq <;> nomatch heq
  obtain ⟨-, h⟩ := typed_failures hvalues hconstants htype
  exact ⟨htype, _, rfl, rfl, ((h freeOfSlips_negation).result rfl).2⟩

/-! ## The exceptions -/

/-- Two measures that add up to more than 64 bits hold. -/
def overfull : Bindings Value :=
  binding keyed [[.string "a", .integer Int64.maxValue], [.string "b", .integer Int64.maxValue]]

/-- The stored name of the measure stands in quotes. -/
def quotedMeasure : Schema :=
  ⟨[⟨"k", .identifier, .string⟩, ⟨"\x27m\x27", .measure, .integer⟩], by decide⟩

/-- The count of the whole dataset, beside every row. -/
def countBeside : Expr := .analytic (.statistic .count) (.var "ds") ⟨[], []⟩

/-- A measure under a name whose capital is not an ASCII letter. -/
def computedCapital : Expr := .compute (.var "ds") "É" (.constant (.integer 1))

/-- Each of the three exceptions happens to an expression that has a type: a sum is refused, a
measure is missing after it was defined, and a measure is not found for the quotes in its name. -/
theorem exceptions_occur :
    (∃ m d, (Expr.aggregate .sum (.var "ds") []).shape? (.engine overfull .empty) = .ok m ∧
        (Expr.aggregate .sum (.var "ds") []).eval (.engine overfull .empty) = .ok (.dataset d) ∧
        d.stream.fault = some (.incompatibleDomain (.valueOf "m") .integer .number)) ∧
      (∃ m s, computedCapital.shape? (.engine overfull .empty) = .ok m ∧
        computedCapital.eval (.engine overfull .empty) = .error (.missingComponent "É" s)) ∧
      ∃ d, countBeside.shape? (.engine (binding quotedMeasure [[.string "a", .integer 1]]) .empty) =
          .ok (.dataset quotedMeasure) ∧
        countBeside.eval (.engine (binding quotedMeasure [[.string "a", .integer 1]]) .empty) =
          .ok (.dataset d) ∧
        d.stream.fault = some (.missingComponent "\x27m\x27" quotedMeasure) := by
  refine ⟨⟨_, _, rfl, rfl, by decide +kernel⟩, ⟨_, _, rfl, rfl⟩, _, rfl, rfl, by decide +kernel⟩

end DataCube
