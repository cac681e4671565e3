import DataCube.Proofs.Typing.Gradual
import DataCube.Proofs.Visibility

/-!
# Typing touches no data

The type of an expression is found before there is data, and is the same once there is.  Of a bound
value nothing but its shape is looked at, so scopes that say the same of every name cannot be told
apart by typing, in what is refused no more than in what is accepted.

* `Scope.SameShapes`: the same names, with the same shapes and the same rules.
* `shape?_congr`: the types of an expression in two such scopes.
* `shape?_of_described`: bound values and the declarations that describe them.
-/

namespace DataCube

/-! ## Scopes -/

/-- Both scopes know the same names, say the same of each, and have the same rules. -/
structure Scope.SameShapes (a b : Scope) : Prop where
  contains : ∀ name, a.contains name = b.contains name
  workspace : a.workspace = b.workspace
  describe : ∀ name, a.describe name = b.describe name

namespace Scope

variable {a b : Scope}

theorem SameShapes.symm (h : a.SameShapes b) : b.SameShapes a where
  contains name := (h.contains name).symm
  workspace := h.workspace.symm
  describe name := (h.describe name).symm

theorem SameShapes.trans {c : Scope} (h : a.SameShapes b) (h' : b.SameShapes c) :
    a.SameShapes c where
  contains name := (h.contains name).trans (h'.contains name)
  workspace := h.workspace.trans h'.workspace
  describe name := (h.describe name).trans (h'.describe name)

theorem SameShapes.sameShapesOn (h : a.SameShapes b) :
    a.SameShapesOn b.workspace (fun _ => True) b :=
  ⟨h.workspace, rfl, fun name _ => h.contains name, fun name _ => h.describe name⟩

end Scope

/-- An expression has the same type in both scopes, or is refused with the same error. -/
theorem shape?_congr (e : Expr) {a b : Scope} (h : a.SameShapes b)
    (hroot : a.root.SameShapes b.root) : e.shape? a = e.shape? b := by
  have hroots : a.root.SameShapesOn b.workspace (fun _ => True) b.root := by
    rw [← b.workspace_root]
    exact hroot.sameShapesOn
  exact shape?_sameOn e.namesIn_all (fun s _ => s.expr.namesIn_all) h.sameShapesOn hroots

/-! ## Bound values -/

/-- Bound values say no more of their names than declarations of their shapes do. -/
theorem sameShapes_engine {values : Bindings Value} {shapes : Bindings Shape}
    (h : values.Rel (fun v m => v.shape = m) shapes) (workspace : Workspace) :
    (Scope.engine values workspace).SameShapes (.compile shapes workspace) where
  contains name := by
    unfold Scope.contains
    obtain ⟨hv, hm⟩ | ⟨v, m, hv, hm, -⟩ := h.find?_pair name
    · rw [hv, hm]
      rfl
    · rw [hv, hm]
      rfl
  workspace := rfl
  describe name := by
    unfold Scope.describe
    obtain ⟨hv, hm⟩ | ⟨v, m, hv, hm, rfl⟩ := h.find?_pair name
    · rw [hv, hm]
      rfl
    · rw [hv, hm]

/-- The shapes of bound values, under the same names. -/
def Bindings.shapes (values : Bindings Value) : Bindings Shape :=
  ⟨values.entries.map fun e => (e.1, e.2.shape)⟩

/-- Values are described by the shapes of other values that have the same ones. -/
theorem Bindings.Rel.shapes {values values' : Bindings Value}
    (h : values.Rel (fun v w => v.shape = w.shape) values') :
    values.Rel (fun v m => v.shape = m) values'.shapes :=
  List.forall₂_map_right_iff.2 h

theorem Bindings.rel_shapes (values : Bindings Value) :
    values.Rel (fun v m => v.shape = m) values.shapes :=
  Bindings.Rel.shapes (List.forall₂_same.2 fun _ _ => ⟨rfl, rfl⟩)

/-- Bound values differ for typing only if their shapes do. -/
theorem sameShapes_engines {values values' : Bindings Value}
    (h : values.Rel (fun v w => v.shape = w.shape) values') (workspace : Workspace) :
    (Scope.engine values workspace).SameShapes (.engine values' workspace) :=
  (sameShapes_engine h.shapes workspace).trans
    (sameShapes_engine values'.rel_shapes workspace).symm

/-- Typing over bound values is typing from the declarations that describe them: the types are the
same, and so are the errors.  So the rows of a dataset and the value of a scalar never matter. -/
theorem shape?_of_described {values : Bindings Value} {shapes : Bindings Shape}
    (h : values.Rel (fun v m => v.shape = m) shapes) (workspace : Workspace) :
    (∀ e : Expr, e.shape? (.engine values workspace) = e.shape? (.compile shapes workspace)) ∧
      ∀ values' : Bindings Value, values.Rel (fun v w => v.shape = w.shape) values' →
        ∀ e : Expr, e.shape? (.engine values workspace) = e.shape? (.engine values' workspace) := by
  constructor
  · intro e
    have hscopes := sameShapes_engine h workspace
    exact shape?_congr e hscopes hscopes
  · intro values' h' e
    have hscopes := sameShapes_engines h' workspace
    exact shape?_congr e hscopes hscopes

/-- A dataset of the given rows and a scalar, both of integers. -/
def boundTo (rows : List Row) (n : Int64) : Bindings Value :=
  ⟨[("ds", .dataset (.ofRows (countedBy .integer) rows)), ("n", .scalar (.integer n))]⟩

/-- Two rows of integers. -/
def countedRows : List Row :=
  [⟨countedBy .integer, [.string "a", .integer 1], .known "ds"⟩,
    ⟨countedBy .integer, [.string "b", .null .integer], .known "ds"⟩]

/-- The sums have one type over no rows, over two, and from the declarations, and a component that
is missing is reported in the same way. -/
theorem shape?_of_described_totals :
    (Expr.var "totals").shape? (.engine (boundTo [] 0) totalsRule) =
        .ok (.dataset (countedBy .integer)) ∧
      (Expr.var "totals").shape? (.engine (boundTo [] 0) totalsRule) =
        (Expr.var "totals").shape? (.engine (boundTo countedRows 5) totalsRule) ∧
      (Expr.keep (.var "ds") ["x"]).shape? (.engine (boundTo [] 0) totalsRule) =
        .error (.missingComponent "x" (countedBy .integer)) := by
  have hdescribed : (boundTo [] 0).Rel (fun v m => v.shape = m) (declaredAs .integer .integer) :=
    .cons ⟨rfl, rfl⟩ (.cons ⟨rfl, rfl⟩ .nil)
  have hrows : (boundTo [] 0).Rel (fun v w => v.shape = w.shape) (boundTo countedRows 5) :=
    .cons ⟨rfl, rfl⟩ (.cons ⟨rfl, rfl⟩ .nil)
  obtain ⟨hdeclared, hbound⟩ := shape?_of_described hdescribed totalsRule
  refine ⟨?_, hbound _ hrows _, ?_⟩
  · rw [hdeclared]
    rfl
  · rw [hdeclared]
    rfl

end DataCube
