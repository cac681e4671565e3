import DataCube.Proofs.Typing.Monotone

/-!
# Typing from declarations is gradual

Before there is data, an expression is typed from declared shapes, and a declaration may leave out
what is not known yet.  Leaving something out is safe: whatever is accepted with the declarations
filled in is accepted without, and gets a type that the filled-in one does not contradict.

* `Shape.Covers`: one shape says less than another, as `Domain.Covers` has it for domains.
* `Precision.declared` is the precision of such typing.  Here results of unknown shape stand for any
  other, which they never do once there are values.
* `dominates_shapeOfRule`, `dominates_shape?`: rules and expressions keep to the precision of the
  root they are typed at.
* `shape?_gradual`: an expression typed from two lists of declarations.
-/

namespace DataCube

/-! ## Shapes -/

/-- The left shape says less than the right one.  Of a result of unknown shape nothing is said;
else the kinds agree, and the names, the roles and the order of components, and it is only domains
that are known less well. -/
inductive Shape.Covers : Shape → Shape → Prop where
  | unknown (m : Shape) : Covers .unknown m
  | scalar {d d' : Domain} : d.Covers d' → Covers (.scalar d) (.scalar d')
  | dataset {s s' : Schema} : s.Rel Domain.Covers s' → Covers (.dataset s) (.dataset s')

/-- Anything declared may be left unknown, and numbers may be declared where integers are found. -/
def Precision.declared : Precision where
  scalar := Domain.Covers
  column := Domain.Covers
  hidden := True
  column_of_scalar h := h
  scalar_operators := respectsOperators_covers
  column_operators := respectsOperators_covers
  statistics := Precision.gradual.statistics
  reducers := Precision.gradual.reducers
  condition := Precision.gradual.condition
  default := Domain.Covers.accepts
  hidden_column _ _ := Or.inr (Or.inl rfl)

theorem Shape.rel_declared_iff {m m' : Shape} : m.Rel .declared m' ↔ m.Covers m' := by
  constructor
  · intro h
    cases h with
    | scalar h => exact .scalar h
    | dataset h => exact .dataset h
    | unknown => exact .unknown .unknown
    | hidden _ => exact .unknown m'
  · intro h
    cases h with
    | unknown m => exact .hidden trivial
    | scalar h => exact .scalar h
    | dataset h => exact .dataset h

/-! ## Roots -/

namespace Scope

variable {p : Precision}

/-- Declarations that say less make up a scope that says less. -/
theorem coarser_compile {shapes shapes' : Bindings Shape} (h : shapes.Rel (Shape.Rel p) shapes')
    (workspace : Workspace) :
    (compile shapes workspace).Coarser p (compile shapes' workspace) where
  contains name := by
    unfold contains
    obtain ⟨hs, hs'⟩ | ⟨m, m', hs, hs', -⟩ := h.find?_pair name
    · rw [hs, hs']
    · rw [hs, hs']
      rfl
  workspace := rfl
  describe name := by
    unfold describe
    obtain ⟨hs, hs'⟩ | ⟨m, m', hs, hs', hm⟩ := h.find?_pair name
    · rw [hs, hs']
      exact dominates_rule rfl name
    · rw [hs, hs']
      exact Dominates.ok (.found hm)

/-- Each rule is typed at the root, so it keeps to the precision of the root. -/
theorem Coarser.dominates_shapeOfRule {a b : Scope} (h : a.Coarser p b) (depth : Nat)
    (s : Statement) : Dominates (Shape.Rel p) (a.shapeOfRule depth s) (b.shapeOfRule depth s) := by
  induction depth generalizing s with
  | zero => exact Dominates.of_error
  | succ depth ih => exact dominates_shapeWith s.expr h ih

end Scope

/-- Typing in a coarser scope over a coarser root. -/
theorem dominates_shape? {p : Precision} {a b : Scope} (h : a.Coarser p b)
    (hroot : a.root.Coarser p b.root) (e : Expr) :
    Dominates (Shape.Rel p) (e.shape? a) (e.shape? b) := by
  refine dominates_shapeWith e h fun s => ?_
  unfold Scope.ruleShape
  rw [h.workspace]
  exact hroot.dominates_shapeOfRule _ s

/-! ## Declarations -/

/-- Not to know a type rejects nothing that is accepted where it is known, and what is then said of
the result is true of the type it has there. -/
theorem shape?_gradual {shapes shapes' : Bindings Shape} (h : shapes.Rel Shape.Covers shapes')
    {workspace : Workspace} {e : Expr} {m' : Shape}
    (hm' : e.shape? (.compile shapes' workspace) = .ok m') :
    ∃ m, e.shape? (.compile shapes workspace) = .ok m ∧ m.Covers m' := by
  have hroot : (Scope.compile shapes workspace).Coarser .declared (.compile shapes' workspace) := by
    apply Scope.coarser_compile
    exact List.Forall₂.imp (fun _ _ he => ⟨he.1, Shape.rel_declared_iff.2 he.2⟩) h
  obtain ⟨m, hm, hrel⟩ := dominates_shape? hroot hroot e m' hm'
  exact ⟨m, hm, Shape.rel_declared_iff.1 hrel⟩

/-- A key, and a measure of the given domain. -/
def countedBy (measure : Domain) : Schema :=
  ⟨[⟨"k", .identifier, .string⟩, ⟨"m", .measure, measure⟩], by simp⟩

/-- A dataset and a scalar, the measure and the scalar declared with the given domains. -/
def declaredAs (measure scalar : Domain) : Bindings Shape :=
  ⟨[("ds", .dataset (countedBy measure)), ("n", .scalar scalar)]⟩

/-- The rule for the sums by key, once the scalar is added to the measure. -/
def totalsRule : Workspace :=
  Workspace.empty.add
    ⟨"totals", .aggregate .sum (.binary .add (.var "ds") (.var "n")) ["k"]⟩

/-- Sums of integers are integers.  Where the measure is not known yet they are numbers. -/
theorem shape?_gradual_totals :
    (declaredAs .unknown .number).Rel Shape.Covers (declaredAs .integer .integer) ∧
      (Expr.var "totals").shape? (.compile (declaredAs .integer .integer) totalsRule) =
        .ok (.dataset (countedBy .integer)) ∧
      (Expr.var "totals").shape? (.compile (declaredAs .unknown .number) totalsRule) =
        .ok (.dataset (countedBy .number)) ∧
      (Shape.dataset (countedBy .number)).Covers (.dataset (countedBy .integer)) := by
  have hcovers : (declaredAs .unknown .number).Rel Shape.Covers (declaredAs .integer .integer) := by
    refine .cons ⟨rfl, .dataset ?_⟩ (.cons ⟨rfl, .scalar (Or.inr (Or.inr ⟨rfl, rfl⟩))⟩ .nil)
    exact .cons ⟨rfl, rfl, Or.inl rfl⟩ (.cons ⟨rfl, rfl, Or.inr (Or.inl rfl)⟩ .nil)
  have hprecise : (Expr.var "totals").shape? (.compile (declaredAs .integer .integer) totalsRule) =
      .ok (.dataset (countedBy .integer)) := rfl
  have hcoarse : (Expr.var "totals").shape? (.compile (declaredAs .unknown .number) totalsRule) =
      .ok (.dataset (countedBy .number)) := rfl
  obtain ⟨m, hm, hmcovers⟩ := shape?_gradual hcovers hprecise
  rw [hcoarse] at hm
  cases hm
  exact ⟨hcovers, hprecise, hcoarse, hmcovers⟩

end DataCube
