import DataCube.Proofs.Safety.Groups
import DataCube.Proofs.Typing.Monotone

/-!
# Scopes of known domains

Where no domain is unknown at the start, none becomes unknown on the way: not in a type, and not in
the scopes of rows and datasets that clauses are evaluated in.

* `Shape.Sound t`, `Value.Sound t`, `Scope.Sound t`: known domains, and streams that only fail as
  let pass.
* `Expr.Has e n`: a node of an expression.  `Expr.Sound t` asks of the nodes what evaluation needs,
  or else that the errors they can end in are let pass.
* `sound_shapeWith`: the type of a sound expression is sound.
* `Scope.Sound.outcome_valueEntry`: a name has a value of the shape that it is typed with.
-/

namespace DataCube

variable {t : Tolerance}

/-! ## Shapes and values -/

/-- Nothing is unknown. -/
def Shape.Sound (t : Tolerance) : Shape → Prop
  | .scalar d => d ≠ .unknown
  | .dataset s => s.Sound t
  | .unknown => False

/-- A scalar of known domain, or a sound dataset. -/
def Value.Sound (t : Tolerance) : Value → Prop
  | .scalar v => v.domain ≠ .unknown
  | .dataset d => d.Sound t

theorem Value.Sound.shape {v : Value} (h : v.Sound t) : v.shape.Sound t := by
  cases v with
  | scalar v => exact h
  | dataset d => exact DataSet.Sound.schema h

/-- A sound value of the given shape. -/
structure Value.Meets (t : Tolerance) (m : Shape) (v : Value) : Prop where
  shape : v.shape = m
  sound : v.Sound t

theorem Shape.Sound.onDataset {m n : Shape} {operator : Unit → String}
    {next : Schema → Except EvalError Shape} (hm : m.Sound t)
    (h : m.onDataset operator next = .ok n)
    (hnext : ∀ s, s.Sound t → next s = .ok n → n.Sound t) : n.Sound t := by
  cases m with
  | scalar d => nomatch h
  | dataset s => exact hnext s hm h
  | unknown => exact hm.elim

theorem UnaryOp.sound_resultShape {op : UnaryOp} {m n : Shape} (hm : m.Sound t)
    (h : op.resultShape m = .ok n) : n.Sound t := by
  cases m with
  | unknown => exact hm.elim
  | scalar d =>
    obtain ⟨d', hd', rfl⟩ := map_eq_ok.1 h
    exact known_resultDomain? hm hd'
  | dataset s =>
    obtain ⟨s', hs', rfl⟩ := map_eq_ok.1 h
    exact Schema.Sound.mapMeasures hm hs' fun c d hc hd => known_resultDomain? hc hd

theorem BinaryOp.sound_resultShape {op : BinaryOp} {l r n : Shape} (hl : l.Sound t)
    (hr : r.Sound t) (h : op.resultShape l r = .ok n) : n.Sound t := by
  cases l with
  | unknown => exact hl.elim
  | scalar l =>
    cases r with
    | unknown => exact hr.elim
    | scalar r =>
      obtain ⟨d, hd, rfl⟩ := map_eq_ok.1 h
      exact known_resultDomain? hl hr hd
    | dataset s =>
      obtain ⟨s', hs', rfl⟩ := map_eq_ok.1 h
      exact Schema.Sound.mapMeasures hr hs' fun c d hc hd => known_resultDomain? hl hc hd
  | dataset s =>
    cases r with
    | unknown => exact hr.elim
    | scalar r =>
      obtain ⟨s', hs', rfl⟩ := map_eq_ok.1 h
      exact Schema.Sound.mapMeasures hl hs' fun c d hc hd => known_resultDomain? hc hr hd
    | dataset s' => nomatch h

/-! ## Expressions -/

namespace Expr

/-- The node is part of the expression. -/
def Has (e n : Expr) : Prop := ∃ path, e.at? path = some n

theorem has_self (e : Expr) : e.Has e := ⟨[], rfl⟩

theorem Has.of_operand {e x n : Expr} (hn : x.Has n) (hx : x ∈ e.operands) : e.Has n := by
  obtain ⟨path, hpath⟩ := hn
  obtain ⟨i, hi⟩ := List.mem_iff_getElem?.1 hx
  exact ⟨i :: path, by rw [at?, hi]; exact hpath⟩

theorem has_iff {e n : Expr} : e.Has n ↔ n = e ∨ ∃ x ∈ e.operands, x.Has n := by
  constructor
  · rintro ⟨path, hpath⟩
    cases path with
    | nil => exact Or.inl (Option.some.inj hpath).symm
    | cons i path =>
      obtain ⟨x, hx, hn⟩ := Option.bind_eq_some_iff.1 hpath
      exact Or.inr ⟨x, List.mem_of_getElem? hx, path, hn⟩
  · rintro (rfl | ⟨x, hx, hn⟩)
    · exact n.has_self
    · exact hn.of_operand hx

/-- A constant or a variable is its only node. -/
theorem Has.eq_of_leaf {e n : Expr} (h : e.Has n) (hleaf : e.operands = []) : n = e := by
  obtain heq | ⟨x, hx, -⟩ := has_iff.1 h
  · exact heq
  · rw [hleaf] at hx
    nomatch hx

/-- What evaluating a node needs beyond its type, or else the errors that it can end in are let
pass. -/
def Allowed (t : Tolerance) : Expr → Prop
  | constant v => v.domain ≠ .unknown
  | compute _ name _ =>
    t.name (normalizeName name) ∧
      (FindsItself name ∨
        ∀ s : Schema, s.component? name = none → t.error (.missingComponent name s))
  | aggregate s _ _ => s = .sum → ∀ name, t.error (Statistic.sumRefused name)
  | analytic _ _ _ =>
    (∀ name, t.name name → NamePattern.unquote? name = none) ∨
      ∀ e : EvalError, e.IsMismatch → t.error e
  | _ => True

/-- Every node has what it needs. -/
def Sound (t : Tolerance) (e : Expr) : Prop := ∀ n, e.Has n → n.Allowed t

theorem Sound.allowed {e : Expr} (h : e.Sound t) : e.Allowed t := h e e.has_self

theorem Sound.operand {e x : Expr} (h : e.Sound t) (hx : x ∈ e.operands) : x.Sound t :=
  fun n hn => h n (hn.of_operand hx)

end Expr

/-! ## Scopes -/

theorem Bindings.mem_values_of_get? {α : Type} {b : Bindings α} {name : String} {x : α}
    (h : b.get? name = some x) : x ∈ b.values := by
  obtain ⟨e, he, rfl⟩ := Option.map_eq_some_iff.1 h
  exact List.mem_map_of_mem (List.mem_of_find?_eq_some he)

namespace Scope

/-- The rules that a scope can refer to. -/
def statements (a : Scope) : List Statement := a.workspace.rules.values

theorem rule?_of_rule {a : Scope} {name : String} {s : Statement} (h : a.rule name = .ok s) :
    a.workspace.rule? name = some s := by
  unfold rule at h
  split at h
  · rename_i s' hs'
    cases h
    exact hs'
  · nomatch h

theorem rule?_of_describe {a : Scope} {name : String} {s : Statement}
    (h : a.describe name = .ok (.rule s)) : a.workspace.rule? name = some s := by
  induction a with
  | engine values workspace | compile values workspace =>
    unfold describe at h
    split at h
    · cases h
    · obtain ⟨s', hs', heq⟩ := map_eq_ok.1 h
      cases heq
      exact rule?_of_rule hs'
  | row schema row parent =>
    unfold describe at h
    split at h
    · cases h
    · split at h
      · cases h
      · cases h
  | this schema dataset parent ih =>
    unfold describe at h
    split at h
    · cases h
    · split at h
      · obtain ⟨s', -, heq⟩ := map_eq_ok.1 h
        cases heq
      · exact ih h

/-- Wherever a variable stands for a rule, it is the one that the workspace has under this name. -/
theorem rule?_of_shapeEntry {a : Scope} {name : String} {s : Statement}
    (h : a.shapeEntry name = .ok (.rule s)) : a.workspace.rule? name = some s := by
  unfold shapeEntry at h
  split at h
  · exact rule?_of_describe h
  · obtain ⟨s', hs', heq⟩ := map_eq_ok.1 h
    cases heq
    exact rule?_of_rule hs'

theorem mem_of_shapeEntry {a : Scope} {name : String} {s : Statement}
    (h : a.shapeEntry name = .ok (.rule s)) : s ∈ a.statements :=
  Bindings.mem_values_of_get? (rule?_of_shapeEntry h)

/-- Every name that is not a rule is typed with nothing unknown. -/
def Described (t : Tolerance) (a : Scope) : Prop :=
  ∀ name m, a.describe name = .ok (.found m) → m.Sound t

theorem described_row {schema : Schema} (h : schema.Sound t) (r : Option Row) (parent : Scope) :
    (row schema r parent).Described t := by
  intro name m hm
  unfold describe at hm
  split at hm
  · cases hm
    exact h
  · split at hm
    · rename_i c hc
      cases hm
      exact (h c (Schema.mem_of_component? hc)).1
    · nomatch hm

theorem Described.this {schema : Schema} {parent : Scope} (hparent : parent.Described t)
    (h : schema.Sound t) (d : Option DataSet) : (Scope.this schema d parent).Described t := by
  intro name m hm
  unfold describe at hm
  split at hm
  · cases hm
    exact h
  · split at hm
    · obtain ⟨s', hs', heq⟩ := map_eq_ok.1 hm
      cases heq
      exact h.membership hs'
    · exact hparent name m hm

theorem Described.shapeEntry {a : Scope} (h : a.Described t) {name : String} {m : Shape}
    (hm : a.shapeEntry name = .ok (.found m)) : m.Sound t := by
  unfold Scope.shapeEntry at hm
  split at hm
  · exact h name m hm
  · obtain ⟨s, -, heq⟩ := map_eq_ok.1 hm
    nomatch heq

end Scope

/-- The type of a sound expression is sound, given that those of rules are. -/
theorem sound_shapeWith {e : Expr} (he : e.Sound t) {rule : Statement → Except EvalError Shape}
    {scope : Scope} (h : scope.Described t)
    (hrule : ∀ s ∈ scope.statements, ∀ m, rule s = .ok m → m.Sound t) {m : Shape}
    (hm : e.shapeWith rule scope = .ok m) : m.Sound t := by
  induction e generalizing scope m with
  | constant v =>
    cases hm
    exact he.allowed
  | var name =>
    obtain ⟨entry, hentry, hm⟩ := bind_eq_ok.1 hm
    cases entry with
    | found n =>
      cases hm
      exact h.shapeEntry hentry
    | rule s => exact hrule s (Scope.mem_of_shapeEntry hentry) m hm
  | unary op x ih =>
    obtain ⟨n, hn, hm⟩ := bind_eq_ok.1 hm
    exact op.sound_resultShape (ih (he.operand List.mem_cons_self) h hrule hn) hm
  | binary op l r ihl ihr =>
    obtain ⟨left, hleft, hm⟩ := bind_eq_ok.1 hm
    obtain ⟨right, hright, hm⟩ := bind_eq_ok.1 hm
    exact op.sound_resultShape (ihl (he.operand List.mem_cons_self) h hrule hleft)
      (ihr (he.operand (List.mem_cons_of_mem _ List.mem_cons_self)) h hrule hright) hm
  | member x name ih =>
    obtain ⟨n, hn, hm⟩ := bind_eq_ok.1 hm
    refine (ih (he.operand List.mem_cons_self) h hrule hn).onDataset hm fun s hs hm => ?_
    obtain ⟨s', hs', rfl⟩ := map_eq_ok.1 hm
    exact hs.membership hs'
  | filter x condition ih _ =>
    obtain ⟨n, hn, hm⟩ := bind_eq_ok.1 hm
    refine (ih (he.operand List.mem_cons_self) h hrule hn).onDataset hm fun s hs hm => ?_
    obtain ⟨_, -, hm⟩ := bind_eq_ok.1 hm
    rw [Shape.eq_of_filtered hm]
    exact hs
  | keep x names ih =>
    obtain ⟨n, hn, hm⟩ := bind_eq_ok.1 hm
    refine (ih (he.operand List.mem_cons_self) h hrule hn).onDataset hm fun s hs hm => ?_
    obtain ⟨s', hs', rfl⟩ := map_eq_ok.1 hm
    obtain ⟨keep, rfl⟩ := Schema.keep_eq_ok hs'
    exact hs.restrict keep
  | drop x names ih =>
    obtain ⟨n, hn, hm⟩ := bind_eq_ok.1 hm
    refine (ih (he.operand List.mem_cons_self) h hrule hn).onDataset hm fun s hs hm => ?_
    obtain ⟨s', hs', rfl⟩ := map_eq_ok.1 hm
    obtain ⟨keep, rfl⟩ := Schema.drop_eq_ok hs'
    exact hs.restrict keep
  | compute x name value ih ihv =>
    obtain ⟨n, hn, hm⟩ := bind_eq_ok.1 hm
    refine (ih (he.operand List.mem_cons_self) h hrule hn).onDataset hm fun s hs hm => ?_
    obtain ⟨c, hc, hm⟩ := bind_eq_ok.1 hm
    obtain ⟨domain, hdomain, hm⟩ := bind_eq_ok.1 hm
    obtain ⟨target, htarget, rfl⟩ := map_eq_ok.1 hm
    have hvalue := ihv (he.operand (List.mem_cons_of_mem _ List.mem_cons_self))
      (Scope.described_row hs none (.this s none scope)) hrule hc
    refine hs.withMeasure htarget ?_ he.allowed.1
    cases c with
    | scalar d =>
      cases hdomain
      exact hvalue
    | dataset s' => nomatch hdomain
    | unknown => exact hvalue.elim
  | within x body ih ihb =>
    obtain ⟨n, hn, hm⟩ := bind_eq_ok.1 hm
    refine (ih (he.operand List.mem_cons_self) h hrule hn).onDataset hm fun s hs hm => ?_
    exact ihb (he.operand (List.mem_cons_of_mem _ List.mem_cons_self)) (h.this hs none) hrule hm
  | shift direction x offset default window ih =>
    obtain ⟨n, hn, hm⟩ := bind_eq_ok.1 hm
    refine (ih (he.operand List.mem_cons_self) h hrule hn).onDataset hm fun s hs hm => ?_
    obtain ⟨_, -, hm⟩ := bind_eq_ok.1 hm
    obtain ⟨_, -, hm⟩ := bind_eq_ok.1 hm
    cases hm
    exact hs
  | aggregate statistic x groupBy ih =>
    obtain ⟨n, hn, hm⟩ := bind_eq_ok.1 hm
    refine (ih (he.operand List.mem_cons_self) h hrule hn).onDataset hm fun s hs hm => ?_
    obtain ⟨s', hs', rfl⟩ := map_eq_ok.1 hm
    exact hs.aggregate hs'
  | analytic r x window ih =>
    obtain ⟨n, hn, hm⟩ := bind_eq_ok.1 hm
    refine (ih (he.operand List.mem_cons_self) h hrule hn).onDataset hm fun s hs hm => ?_
    obtain ⟨s', hs', rfl⟩ := map_eq_ok.1 hm
    exact hs.analytic hs'

namespace Scope

/-- A scope of evaluation whose values are sound. -/
inductive Sound (t : Tolerance) : Scope → Prop where
  | engine {values : Bindings Value} {workspace : Workspace} :
      (∀ v ∈ values.values, v.Sound t) → Sound t (.engine values workspace)
  | row {r : Row} {parent : Scope} :
      r.Exact → r.schema.Sound t → Sound t parent → Sound t (.ofRow r parent)
  | this {d : DataSet} {parent : Scope} :
      d.Sound t → Sound t parent → Sound t (.ofDataSet d parent)

theorem Sound.root {a : Scope} (h : a.Sound t) : a.root.Sound t := by
  induction h with
  | engine hvalues => exact .engine hvalues
  | row _ _ _ ih => exact ih
  | this _ _ ih => exact ih

theorem Sound.described {a : Scope} (h : a.Sound t) : a.Described t := by
  induction h with
  | @engine values workspace hvalues =>
    intro name m hm
    unfold describe at hm
    split at hm
    · rename_i v hv
      cases hm
      exact (hvalues v (Bindings.mem_values_of_find? hv)).shape
    · obtain ⟨s, -, heq⟩ := map_eq_ok.1 hm
      nomatch heq
  | row _ hschema _ _ => exact described_row hschema _ _
  | this hd _ ih => exact ih.this hd.schema _

/-- The dataset of a single row is sound if the row is. -/
theorem sound_singleton {r : Row} (hexact : r.Exact) (hschema : r.schema.Sound t) :
    (DataSet.ofRows r.schema [r]).Sound t where
  wellFormed r' hr' := by
    rw [DataSet.stream_ofRows] at hr'
    rw [List.mem_singleton.1 hr']
    exact ⟨rfl, hexact.mono fun _ _ heq => Or.inl heq⟩
  schema := hschema
  fault _ he := nomatch he

/-- A name has a value of the shape that it is typed with. -/
theorem Sound.outcome_resolve {a : Scope} (h : a.Sound t) {name : String} {entry : Entry Shape}
    (hentry : a.describe name = .ok entry) :
    Outcome t.error (Entry.Rel (Value.Meets t) entry) (a.resolve name) := by
  induction h generalizing entry with
  | @engine values workspace hvalues =>
    unfold describe at hentry
    unfold Scope.resolve
    cases hfind : values.find? name with
    | some v =>
      rw [hfind] at hentry
      cases hentry
      exact .found ⟨rfl, hvalues v (Bindings.mem_values_of_find? hfind)⟩
    | none =>
      rw [hfind] at hentry
      obtain ⟨s, hs, rfl⟩ := map_eq_ok.1 hentry
      simp only [hs]
      exact .rule s
  | @row r parent hexact hschema _ _ =>
    unfold ofRow describe at hentry
    unfold ofRow Scope.resolve
    split at hentry
    · rename_i hthis
      cases hentry
      rw [if_pos hthis]
      exact .found ⟨rfl, sound_singleton hexact hschema⟩
    · rename_i hthis
      rw [if_neg hthis]
      rcases hexact.lookup? name with ⟨hc, -⟩ | ⟨c, v, hc, hv, -, hdomain⟩
      · rw [hc] at hentry
        cases hentry
      · rw [hc] at hentry
        cases hentry
        rw [hv]
        refine .found ⟨congrArg Shape.scalar hdomain.symm, ?_⟩
        show v.domain ≠ .unknown
        rw [← hdomain]
        exact (hschema c (Schema.mem_of_component? hc)).1
  | @this d parent hd _ ih =>
    unfold ofDataSet describe at hentry
    unfold ofDataSet Scope.resolve
    cases hthis : isThis name with
    | true =>
      rw [hthis] at hentry
      cases hentry
      exact .found ⟨rfl, hd⟩
    | false =>
      rw [hthis] at hentry
      cases hc : d.schema.component? name with
      | none =>
        rw [hc] at hentry
        exact ih hentry
      | some c =>
        rw [hc] at hentry
        obtain ⟨target, htarget, rfl⟩ := map_eq_ok.1 hentry
        obtain ⟨m, hm, hmschema, hsound⟩ :=
          hd.membership htarget (d.displayName ++ "#" ++ name)
        show Outcome _ _ ((d.membership name _).map _)
        rw [hm]
        exact .found ⟨congrArg Shape.dataset hmschema, hsound⟩

/-- What typing finds in a scope is contained in it. -/
theorem Sound.outcome_valueEntry {a : Scope} (h : a.Sound t) {name : String}
    {entry : Entry Shape} (hentry : a.shapeEntry name = .ok entry) :
    Outcome t.error (Entry.Rel (Value.Meets t) entry) (a.valueEntry name) := by
  unfold shapeEntry at hentry
  unfold valueEntry
  split at hentry
  · rename_i hcontains
    rw [if_pos hcontains]
    exact h.outcome_resolve hentry
  · rename_i hcontains
    rw [if_neg hcontains]
    obtain ⟨s, hs, rfl⟩ := map_eq_ok.1 hentry
    rw [hs]
    exact .rule s

end Scope

end DataCube
