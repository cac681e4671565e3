import DataCube.Bindings
import DataCube.Expr

/-!
# Workspaces

A workspace holds named statements, the rules. Rules are kept under their normalized names in the
order in which they were added; a rule added under a name that is taken replaces the earlier one in
its place.
-/

namespace DataCube

/-- A named expression. -/
structure Statement where
  name : String
  expr : Expr
deriving DecidableEq

/-- How a statement is written. -/
def Statement.text (s : Statement) : String := s.name ++ " := " ++ s.expr.text

/-- The rules, under their normalized names. -/
structure Workspace where
  rules : Bindings Statement

namespace Workspace

/-- The workspace without rules. -/
def empty : Workspace := ⟨.empty⟩

/-- Adds a rule. -/
def add (w : Workspace) (s : Statement) : Workspace := ⟨w.rules.insert (normalizeName s.name) s⟩

/-- The rule that a name refers to. -/
def rule? (w : Workspace) (name : String) : Option Statement := w.rules.get? (normalizeName name)

/-- The number of rules. -/
def size (w : Workspace) : Nat := w.rules.size

end Workspace

end DataCube
