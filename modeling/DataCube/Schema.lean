import DataCube.Domain
import DataCube.Name

/-!
# Schemas

A schema is the ordered list of the components of a dataset, each a named column with a role and a
domain. Names are distinct, compared exactly.

* Lookup: `component?` applies the quoting rule, `positionOf?` takes an exact stored name.
* Change: `restrict` keeps some components, `insert` replaces a component in place or appends it.
-/

namespace DataCube

/-- What a component is for: identifiers are the key of a row, measures are observed or computed,
attributes describe. -/
inductive Role where
  | identifier
  | measure
  | attribute
deriving DecidableEq

/-- The name of a role. -/
def Role.text : Role → String
  | .identifier => "identifier"
  | .measure => "measure"
  | .attribute => "attribute"

/-- A named column. -/
structure Component where
  name : String
  role : Role
  domain : Domain
deriving DecidableEq

namespace Component

/-- How a component is written. -/
def text (c : Component) : String :=
  c.name ++ "[" ++ c.role.text ++ ", " ++ c.domain.text ++ "]"

/-- The same column in another role. -/
def withRole (c : Component) (role : Role) : Component := { c with role }

/-- The same column with another domain. -/
def withDomain (c : Component) (domain : Domain) : Component := { c with domain }

end Component

/-- The ordered components of a dataset, with distinct names. -/
structure Schema where
  components : List Component
  names_nodup : (components.map Component.name).Nodup
deriving DecidableEq

namespace Schema

/-! ## Views -/

/-- The number of components. -/
def size (s : Schema) : Nat := s.components.length

/-- The names of the components, in order. -/
def names (s : Schema) : List String := s.components.map Component.name

/-- The components in a role, in order. -/
def withRole (s : Schema) (role : Role) : List Component := s.components.filter (·.role = role)

/-- The identifiers, in order. -/
def identifiers (s : Schema) : List Component := s.withRole .identifier

/-- The measures, in order. -/
def measures (s : Schema) : List Component := s.withRole .measure

/-- How a schema is written. -/
def text (s : Schema) : String :=
  "\x7b" ++ ", ".intercalate (s.components.map Component.text) ++ "\x7d"

/-! ## Lookup -/

/-- The component that a name refers to under the quoting rule. -/
def component? (s : Schema) (name : String) : Option Component :=
  (NamePattern.ofName name).find? Component.name s.components

/-- The place of the component with exactly this name. -/
def positionOf? (s : Schema) (name : String) : Option Nat :=
  s.components.findIdx? (·.name = name)

/-- The place of a component, if the schema holds just this one. -/
def position? (s : Schema) (c : Component) : Option Nat :=
  (s.positionOf? c.name).filter fun i => s.components[i]? = some c

/-! ## Change -/

/-- The components that pass a test, in order. -/
def restrict (s : Schema) (keep : Component → Bool) : Schema where
  components := s.components.filter keep
  names_nodup := (List.filter_sublist.map _).nodup s.names_nodup

/-- Replaces the component of the same name in place, or appends. -/
def insertIn (c : Component) (components : List Component) : List Component :=
  if components.any (·.name = c.name) then
    components.map fun d => if d.name = c.name then c else d
  else components ++ [c]

theorem names_insertIn_of_any {c : Component} {components : List Component}
    (h : components.any (·.name = c.name)) :
    (insertIn c components).map Component.name = components.map Component.name := by
  simp only [insertIn, h, if_true, List.map_map]
  refine List.map_congr_left fun d _ => ?_
  by_cases hd : d.name = c.name <;> simp [hd]

theorem names_insertIn_nodup {c : Component} {components : List Component}
    (h : (components.map Component.name).Nodup) :
    ((insertIn c components).map Component.name).Nodup := by
  by_cases hc : components.any (·.name = c.name)
  · rwa [names_insertIn_of_any hc]
  · have hnot : c.name ∉ components.map Component.name := by
      simpa using hc
    rw [insertIn, if_neg hc, List.map_append]
    refine List.nodup_append.2 ⟨h, by simp, ?_⟩
    rintro a ha b hb rfl
    rw [List.map_singleton, List.mem_singleton] at hb
    exact hnot (hb ▸ ha)

/-- The schema with a component replaced in place under its name, or appended. -/
def insert (s : Schema) (c : Component) : Schema where
  components := insertIn c s.components
  names_nodup := names_insertIn_nodup s.names_nodup

end Schema

end DataCube
