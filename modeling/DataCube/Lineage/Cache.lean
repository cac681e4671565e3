import DataCube.Expr

/-!
# The lineage cache

The lineage of an expression is computed on request and kept in a slot of each node on the way. A
strong slot keeps its lineage until it is evicted. A weak slot only remembers it: the lineage is
there as long as something else still holds it, which is a handle given out and kept, a strong slot,
or a lineage that has it among its sources and is itself held.

* `StoredLineage` is a lineage in memory. Its number tells allocations apart, so sharing can be
  seen.
* `LineageCache` is an expression with its slots, the handles kept, and one further slot on its own.
* `request`, `cached?`, `evict`, `release`, `clone` are the steps; `roots` and `isAlive` say what is
  held.
-/

namespace DataCube

/-- How long a slot keeps a lineage. -/
inductive CachePolicy where
  | strong
  | weak
deriving DecidableEq

/-- A lineage in memory, with the number of its allocation. -/
inductive StoredLineage where
  | known (id : Nat) (name : String)
  | node (id : Nat) (label : String) (sources : List StoredLineage)

namespace StoredLineage

/-- The number of the allocation. -/
def id : StoredLineage → Nat
  | known id _ => id
  | node id _ _ => id

mutual

/-- The lineage, wherever it is stored. -/
def lineage : StoredLineage → Lineage
  | known _ name => .known name
  | node _ label sources => .node label (lineages sources)

/-- The lineages of a list. -/
def lineages : List StoredLineage → List Lineage
  | [] => []
  | s :: rest => lineage s :: lineages rest

end

mutual

/-- The allocation is this one or one of its sources, at any depth. -/
def reaches (target : Nat) : StoredLineage → Bool
  | known id _ => id = target
  | node id _ sources => id = target || anyReaches target sources

/-- One of the lineages reaches the allocation. -/
def anyReaches (target : Nat) : List StoredLineage → Bool
  | [] => false
  | s :: rest => reaches target s || anyReaches target rest

end

end StoredLineage

/-- What a cache holds for a node. -/
inductive CacheSlot where
  | empty
  | strong (s : StoredLineage)
  | weak (s : StoredLineage)

/-- The slot of a lineage stored under a policy. -/
def CachePolicy.slot : CachePolicy → StoredLineage → CacheSlot
  | .strong, s => .strong s
  | .weak, s => .weak s

/-- The lineage that a slot keeps by itself. -/
def CacheSlot.held : CacheSlot → List StoredLineage
  | .strong s => [s]
  | _ => []

/-- The operand numbers that lead from the root of an expression to a node. -/
abbrev NodePath := List Nat

/-- An expression with the slots of its nodes, the handles that are kept, and a slot on its own. -/
structure LineageCache where
  expr : Expr
  policy : CachePolicy
  slots : List (NodePath × CacheSlot)
  single : CacheSlot
  handles : List (String × StoredLineage)
  /-- The number of the next allocation. -/
  next : Nat

namespace LineageCache

/-- The empty cache of an expression. -/
def start (expr : Expr) (policy : CachePolicy) : LineageCache :=
  { expr, policy, slots := [], single := .empty, handles := [], next := 0 }

/-! ## What is there -/

/-- The lineages that are held: by handles and by strong slots. -/
def roots (c : LineageCache) : List StoredLineage :=
  c.handles.map Prod.snd ++ c.slots.flatMap (·.2.held) ++ c.single.held

/-- The allocation can be reached from a lineage that is held. -/
def isAlive (c : LineageCache) (id : Nat) : Bool := c.roots.any (·.reaches id)

/-- The lineage a slot gives. -/
def read (c : LineageCache) : CacheSlot → Option StoredLineage
  | .empty => none
  | .strong s => some s
  | .weak s => if c.isAlive s.id then some s else none

/-- The slot of a node. -/
def slotAt (c : LineageCache) (path : NodePath) : CacheSlot :=
  ((c.slots.find? fun e => e.1 = path).map Prod.snd).getD .empty

/-- The lineage cached for a node. -/
def cached? (c : LineageCache) (path : NodePath) : Option StoredLineage := c.read (c.slotAt path)

/-- The names of the handles on an allocation, in ascending order. -/
def holders (c : LineageCache) (s : StoredLineage) : List String :=
  ((c.handles.filter fun h => h.2.id = s.id).map Prod.fst).mergeSort

/-! ## Requests -/

/-- Puts a slot in its place. -/
def setSlot (c : LineageCache) (path : NodePath) (slot : CacheSlot) : LineageCache :=
  { c with slots := (path, slot) :: c.slots.filter fun e => e.1 ≠ path }

/-- Stores a newly made lineage for a node. -/
def keep (c : LineageCache) (path : NodePath) (make : Nat → StoredLineage) :
    StoredLineage × LineageCache :=
  let s := make c.next
  (s, { c with next := c.next + 1 }.setSlot path (c.policy.slot s))

/-- The lineage of a node, from its slot if it is there, and otherwise made of the lineages of its
operands and stored. -/
def requestAt (e : Expr) (path : NodePath) (c : LineageCache) : StoredLineage × LineageCache :=
  match c.cached? path with
  | some s => (s, c)
  | none =>
    match e with
    | .constant v => c.keep path fun id => .known id v.text
    | .var name => c.keep path fun id => .known id name
    | .binary _ x y | .filter x y | .compute x _ y | .within x y =>
      let (s, c) := requestAt x (path ++ [0]) c
      let (t, c) := requestAt y (path ++ [1]) c
      c.keep path fun id => .node id e.text [s, t]
    | .unary _ x | .member x _ | .keep x _ | .drop x _ | .shift _ x _ _ _ | .aggregate _ x _
    | .analytic _ x _ =>
      let (s, c) := requestAt x (path ++ [0]) c
      c.keep path fun id => .node id e.text [s]

/-- The lineage of the node at the end of a path. -/
def request? (c : LineageCache) (path : NodePath) : Option (StoredLineage × LineageCache) :=
  (c.expr.at? path).map fun e => requestAt e path c

/-- The lineage of a name from the slot on its own; the flag tells whether it had to be made. -/
def requestSingle (c : LineageCache) (name : String) : StoredLineage × Bool × LineageCache :=
  match c.read c.single with
  | some s => (s, false, c)
  | none =>
    let s := StoredLineage.known c.next name
    (s, true, { c with next := c.next + 1, single := c.policy.slot s })

/-! ## Other steps -/

/-- Keeps a handle under a name, in place of the one that had it. -/
def hold (c : LineageCache) (name : String) (s : StoredLineage) : LineageCache :=
  { c with handles := (name, s) :: c.handles.filter fun h => h.1 ≠ name }

/-- Lets go of a handle. -/
def release (c : LineageCache) (name : String) : LineageCache :=
  { c with handles := c.handles.filter fun h => h.1 ≠ name }

/-- Empties the slot of a node. -/
def evict (c : LineageCache) (path : NodePath) : LineageCache := c.setSlot path .empty

/-- Empties the slot on its own. -/
def evictSingle (c : LineageCache) : LineageCache := { c with single := .empty }

/-- Changes how lineages are stored from now on. -/
def setPolicy (c : LineageCache) (policy : CachePolicy) : LineageCache := { c with policy }

/-- The path leads through the expression of a bracket clause. -/
def entersClause (e : Expr) : NodePath → Bool
  | [] => false
  | i :: path =>
    (match e, i with
      | .filter _ _, 1 | .compute _ _ _, 1 | .within _ _, 1 => true
      | _, _ => false) ||
    (match e.operands[i]? with
      | some x => entersClause x path
      | none => false)

/-- Replaces the expression by a copy. The expressions of clauses are shared with the copy, slots
included; all other nodes start with empty slots. -/
def clone (c : LineageCache) : LineageCache :=
  { c with slots := c.slots.filter fun e => entersClause c.expr e.1 }

end LineageCache

end DataCube
