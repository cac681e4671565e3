import DataCube.Error

/-!
# Derived schemas

The schemas that expressions derive from the schema of their operand, and the errors that stand in
their way. Names are looked up under the quoting rule and identifiers are never projected away.

* `Schema.membership`: the identifiers and one other component, as a measure.
* `Schema.keep`, `Schema.drop`: the identifiers with the named, or without the named, components.
* `Schema.withMeasure`: one measure added or replaced.
* `Schema.mapMeasures`: new domains for the measures.
-/

namespace DataCube.Schema

/-- The first name that an earlier component has already. -/
def repeatedName? : List Component → List Component → Option String
  | _, [] => none
  | earlier, c :: rest =>
    if earlier.any (·.name = c.name) then some c.name else repeatedName? (c :: earlier) rest

/-- The schema of the given components, unless a name repeats. -/
def ofList (components : List Component) : Except EvalError Schema :=
  if h : (components.map Component.name).Nodup then .ok ⟨components, h⟩
  else .error (.duplicateComponent ((repeatedName? [] components).getD ""))

/-- The component that a name refers to. -/
def require (s : Schema) (name : String) : Except EvalError Component :=
  match s.component? name with
  | some c => .ok c
  | none => .error (.missingComponent name s)

/-- The component that a name refers to, which must not be an identifier. -/
def requireOther (s : Schema) (use : ComponentUse) (name : String) :
    Except EvalError Component := do
  let c ← s.require name
  if c.role = .identifier then throw (.incompatibleRole use c.name .measure) else pure c

/-- The component that a name refers to, which must be an identifier. -/
def requireIdentifier (s : Schema) (use : ComponentUse) (name : String) :
    Except EvalError Component := do
  let c ← s.require name
  if c.role = .identifier then pure c else throw (.incompatibleRole use c.name .identifier)

/-- All identifiers, and the named component as a measure. -/
def membership (s : Schema) (name : String) : Except EvalError Schema := do
  let member ← s.requireOther .membership name
  pure ((s.restrict (·.role = .identifier)).insert (member.withRole .measure))

/-- The identifiers and the named components. -/
def keep (s : Schema) (names : List String) : Except EvalError Schema := do
  let kept ← names.mapM (s.requireOther .keep)
  pure (s.restrict fun c => c.role = .identifier || kept.any (·.name = c.name))

/-- All components but the named ones. -/
def drop (s : Schema) (names : List String) : Except EvalError Schema := do
  let dropped ← names.mapM (s.requireOther .drop)
  pure (s.restrict fun c => ! dropped.any (·.name = c.name))

/-- Defines a measure: in the place and under the stored name of the component that `name` refers
to, or else under the normalized name. -/
def withMeasure (s : Schema) (name : String) (domain : Domain) : Except EvalError Schema :=
  match s.component? name with
  | some c =>
    if c.role = .identifier then .error (.incompatibleRole .calc c.name .measure)
    else .ok (s.insert ⟨c.name, .measure, domain⟩)
  | none => .ok (s.insert ⟨normalizeName name, .measure, domain⟩)

/-- Gives every measure the domain that `domainOf` finds for it. -/
def mapMeasures (s : Schema) (domainOf : Component → Except EvalError Domain) :
    Except EvalError Schema := do
  let components ← s.components.mapM fun c =>
    if c.role = .measure then c.withDomain <$> domainOf c else pure c
  ofList components

end DataCube.Schema
