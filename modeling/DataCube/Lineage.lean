/-!
# Lineage

Where a value or a row comes from: a named source, a transformation of other lineages, or a group of
lineages with the number of rows each contributed.

* `Lineage.order` is a total order; groups are compared as the lists of their entries.
* Groups are kept as entries in ascending order of lineage. `Group.add` counts one more row and
  `Group.merge` adds up two groups.
-/

namespace DataCube

/-- The provenance of a value or a row. -/
inductive Lineage where
  /-- A named source, or a literal. -/
  | known (name : String)
  /-- Made by the transformation `label` from `sources`. -/
  | node (label : String) (sources : List Lineage)
  /-- The contributions to an aggregate, in ascending order of lineage. -/
  | group (entries : List (Lineage × Nat))
  | unknown

namespace Lineage

/-! ## Order -/

mutual

/-- The order of lineages: sources, transformations, groups, unknown; then by content. -/
def order : Lineage → Lineage → Ordering
  | known a, known b => compare a b
  | known _, _ => .lt
  | _, known _ => .gt
  | node a as, node b bs => (compare a b).then (orderSources as bs)
  | node _ _, _ => .lt
  | _, node _ _ => .gt
  | group as, group bs => orderEntries as bs
  | group _, _ => .lt
  | _, group _ => .gt
  | unknown, unknown => .eq

/-- The order of two lists of sources. -/
def orderSources : List Lineage → List Lineage → Ordering
  | [], [] => .eq
  | [], _ :: _ => .lt
  | _ :: _, [] => .gt
  | a :: as, b :: bs => (order a b).then (orderSources as bs)

/-- The order of the entries of two groups. -/
def orderEntries : List (Lineage × Nat) → List (Lineage × Nat) → Ordering
  | [], [] => .eq
  | [], _ :: _ => .lt
  | _ :: _, [] => .gt
  | (a, m) :: as, (b, n) :: bs => ((order a b).then (compare m n)).then (orderEntries as bs)

end

instance : Ord Lineage := ⟨order⟩

/-- Equality under the order. -/
def same (a b : Lineage) : Bool := a.order b = .eq

/-! ## Text -/

mutual

/-- How a lineage is written. -/
def text : Lineage → String
  | known name => name
  | node label sources => label ++ "(" ++ ", ".intercalate (sourceTexts sources) ++ ")"
  | group entries => "\x7b" ++ ", ".intercalate (entryTexts entries) ++ "\x7d"
  | unknown => "?"

/-- How sources are written. -/
def sourceTexts : List Lineage → List String
  | [] => []
  | l :: ls => text l :: sourceTexts ls

/-- How the entries of a group are written. -/
def entryTexts : List (Lineage × Nat) → List String
  | [] => []
  | (l, n) :: es => (text l ++ "=" ++ n.repr) :: entryTexts es

end

/-! ## Groups -/

/-- Contribution counts in ascending order of lineage. -/
abbrev Group := List (Lineage × Nat)

namespace Group

/-- Counts `n` more rows of a lineage. -/
def addMany (l : Lineage) (n : Nat) : Group → Group
  | [] => [(l, n)]
  | (k, m) :: rest =>
    match l.order k with
    | .lt => (l, n) :: (k, m) :: rest
    | .eq => (k, m + n) :: rest
    | .gt => (k, m) :: addMany l n rest

/-- Counts one more row of a lineage. -/
def add (g : Group) (l : Lineage) : Group := addMany l 1 g

/-- Adds up two groups. -/
def merge (g other : Group) : Group := other.foldl (fun acc e => addMany e.1 e.2 acc) g

/-- The group of a list of lineages. -/
def ofList (ls : List Lineage) : Group := ls.foldl add []

/-- The number of rows counted for a lineage. -/
def count (g : Group) (l : Lineage) : Nat :=
  match g.find? fun e => l.same e.1 with
  | some e => e.2
  | none => 0

/-- The number of rows counted. -/
def total : Group → Nat
  | [] => 0
  | e :: rest => e.2 + total rest

end Group

end Lineage

end DataCube
