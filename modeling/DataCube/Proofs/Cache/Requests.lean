import DataCube.Lineage.Cache
import DataCube.Proofs.Correspondence

/-!
# What a request does

A request for the lineage of a node first asks for those of its operands, unless its own is there.
It fills the slots of the nodes on the way, so what it does to the rest of the cache is the same
thing over and over: a lineage is made of lineages that were answered just before, and stored.

* `Expr.stored`, `Expr.operandsAt`: the lineage of a node in memory, and the operands with their
  paths.
* `LineageCache.Requests`: requests for a list of nodes, as a relation.  It has one rule for a
  lineage that is there and one for a lineage that is made, so a property that requests keep is
  shown by one induction.
* `LineageCache.stores`: what a request stores on its way.
* `LineageCache.requests_requestAt`: every request is one of the relation.
-/

namespace DataCube

/-- What happened to a cache. -/
inductive CacheEvent where
  /-- A lineage was stored for a node under a policy. -/
  | stored (path : NodePath) (policy : CachePolicy) (s : StoredLineage)
  | evicted (path : NodePath)
  | cloned
  /-- A lineage was kept under a name. -/
  | held (name : String) (s : StoredLineage)
  | released (name : String)

/-! ## Nodes -/

namespace Expr

/-- The lineage of a node in memory, made of those of its operands. -/
def stored (e : Expr) (id : Nat) (sources : List StoredLineage) : StoredLineage :=
  match e with
  | constant v => .known id v.text
  | var name => .known id name
  | e => .node id e.text sources

/-- The operands of the node at the end of a path, with their own paths. -/
def operandsAt (e : Expr) (path : NodePath) : List (NodePath × Expr) :=
  e.operands.zipIdx.map fun x => (path ++ [x.2], x.1)

/-- The lineage in memory is the lineage. -/
theorem lineage_stored {e : Expr} {sources : List StoredLineage}
    (h : List.Forall₂ (fun x s => StoredLineage.lineage s = x.lineage) e.operands sources)
    (id : Nat) : (e.stored id sources).lineage = e.lineage := by
  cases e with
  | constant v => rfl
  | var name => rfl
  | binary _ x y | filter x y | compute x _ y | within x y =>
    obtain _ | ⟨hx, _ | ⟨hy, ⟨⟩⟩⟩ := h
    simp only [stored, StoredLineage.lineage, StoredLineage.lineages, lineage, hx, hy]
  | unary _ x | member x _ | keep x _ | drop x _ | shift _ x _ _ _ | aggregate _ x _
  | analytic _ x _ =>
    obtain _ | ⟨hx, ⟨⟩⟩ := h
    simp only [stored, StoredLineage.lineage, StoredLineage.lineages, lineage, hx]

theorem id_stored (e : Expr) (id : Nat) (sources : List StoredLineage) :
    (e.stored id sources).id = id := by
  cases e <;> rfl

/-- One step further down. -/
theorem at?_concat (e : Expr) (path : NodePath) (i : Nat) :
    e.at? (path ++ [i]) = (e.at? path).bind fun x => x.operands[i]? := by
  induction path generalizing e with
  | nil => exact Option.bind_fun_some _
  | cons j path ih =>
    show (e.operands[j]?).bind _ = ((e.operands[j]?).bind _).bind _
    rw [Option.bind_assoc]
    exact Option.bind_congr fun x _ => ih x

/-- The operands of a node are nodes. -/
theorem at?_of_mem_operandsAt {root e : Expr} {path : NodePath} (h : root.at? path = some e)
    {x : NodePath × Expr} (hx : x ∈ e.operandsAt path) : root.at? x.1 = some x.2 := by
  obtain ⟨⟨y, i⟩, hy, rfl⟩ := List.mem_map.1 hx
  rw [at?_concat, h]
  exact List.mem_zipIdx_iff_getElem?.1 hy

end Expr

/-! ## Slots -/

namespace LineageCache

variable {c c' c₁ : LineageCache} {path path' : NodePath} {slot : CacheSlot}

/-- Putting a slot in its place changes no other one. -/
theorem slotAt_setSlot :
    (c.setSlot path slot).slotAt path' = if path' = path then slot else c.slotAt path' := by
  unfold setSlot slotAt
  by_cases h : path' = path
  · subst h
    simp
  · rw [if_neg h, List.find?_cons_of_neg (by simpa using Ne.symm h), List.find?_filter]
    congr 3
    funext e
    by_cases he : e.1 = path'
    · simp [he, h]
    · simp [he]

/-! ## Requests -/

/-- Requests for nodes one after the other, with what they answer and what they store. -/
inductive Requests : List (NodePath × Expr) → LineageCache → List StoredLineage →
    List CacheEvent → LineageCache → Prop where
  | done {c : LineageCache} : Requests [] c [] [] c
  /-- The lineage is there. -/
  | cached {nodes : List (NodePath × Expr)} {c c' : LineageCache} {path : NodePath} {e : Expr}
      {s : StoredLineage} {answers : List StoredLineage} {events : List CacheEvent} :
      c.cached? path = some s → Requests nodes c answers events c' →
      Requests ((path, e) :: nodes) c (s :: answers) events c'
  /-- The lineage is made of those of the operands, and stored. -/
  | made {nodes : List (NodePath × Expr)} {c c₁ c' : LineageCache} {path : NodePath} {e : Expr}
      {sources answers : List StoredLineage} {below events : List CacheEvent} :
      c.cached? path = none → Requests (e.operandsAt path) c sources below c₁ →
      Requests nodes (c₁.keep path fun id => e.stored id sources).2 answers events c' →
      Requests ((path, e) :: nodes) c (e.stored c₁.next sources :: answers)
        (below ++ .stored path c₁.policy (e.stored c₁.next sources) :: events) c'

namespace Requests

variable {nodes : List (NodePath × Expr)} {e : Expr} {s : StoredLineage}
  {answers sources : List StoredLineage} {events events' : List CacheEvent}

/-- One request, and then others. -/
theorem cons (h : Requests [(path, e)] c [s] events c₁)
    (hrest : Requests nodes c₁ answers events' c') :
    Requests ((path, e) :: nodes) c (s :: answers) (events ++ events') c' := by
  cases h with
  | cached hs h =>
    cases h
    exact .cached hs hrest
  | made hnone hsources h =>
    cases h
    rw [List.append_assoc]
    exact .made hnone hsources hrest

/-- Requests leave everything alone but slots. -/
theorem kept (h : Requests nodes c answers events c') :
    c'.expr = c.expr ∧ c'.policy = c.policy ∧ c'.handles = c.handles ∧ c'.single = c.single := by
  induction h with
  | done => exact ⟨rfl, rfl, rfl, rfl⟩
  | cached _ _ ih => exact ih
  | made _ _ _ ihsources ih =>
    obtain ⟨hexpr, hpolicy, hhandles, hsingle⟩ := ih
    obtain ⟨hexpr', hpolicy', hhandles', hsingle'⟩ := ihsources
    exact ⟨hexpr.trans hexpr', hpolicy.trans hpolicy', hhandles.trans hhandles',
      hsingle.trans hsingle'⟩

/-- A request for a node whose lineage is made. -/
theorem single (hnone : c.cached? path = none)
    (hsources : Requests (e.operandsAt path) c sources events c₁) :
    Requests [(path, e)] c [e.stored c₁.next sources]
      (events ++ [.stored path c.policy (e.stored c₁.next sources)])
      (c₁.keep path fun id => e.stored id sources).2 := by
  rw [← hsources.kept.2.1]
  exact .made hnone hsources .done

end Requests

/-- The lineages that a request for a node stores, those of the operands first. -/
def stores (e : Expr) (path : NodePath) (c : LineageCache) : List CacheEvent :=
  match c.cached? path with
  | some _ => []
  | none =>
    (match e with
      | .constant _ | .var _ => []
      | .binary _ x y | .filter x y | .compute x _ y | .within x y =>
        stores x (path ++ [0]) c ++ stores y (path ++ [1]) (requestAt x (path ++ [0]) c).2
      | .unary _ x | .member x _ | .keep x _ | .drop x _ | .shift _ x _ _ _ | .aggregate _ x _
      | .analytic _ x _ => stores x (path ++ [0]) c) ++
      [.stored path c.policy (requestAt e path c).1]

/-- A lineage that is there is the answer. -/
theorem requestAt_of_cached? {s : StoredLineage} (h : c.cached? path = some s) (e : Expr) :
    requestAt e path c = (s, c) := by
  unfold requestAt
  rw [h]

theorem stores_of_cached? {s : StoredLineage} (h : c.cached? path = some s) (e : Expr) :
    stores e path c = [] := by
  unfold stores
  rw [h]

theorem requests_requestAt (e : Expr) (path : NodePath) (c : LineageCache) :
    Requests [(path, e)] c [(requestAt e path c).1] (stores e path c) (requestAt e path c).2 := by
  induction e generalizing path c with
  | constant v | var name =>
    rw [stores, requestAt]
    cases hc : c.cached? path with
    | some s => exact .cached hc .done
    | none => exact .single hc .done
  | binary _ x y ihx ihy | filter x y ihx ihy | compute x _ y ihx ihy | within x y ihx ihy =>
    rw [stores, requestAt]
    cases hc : c.cached? path with
    | some s => exact .cached hc .done
    | none => exact .single hc (.cons (ihx (path ++ [0]) c) (ihy (path ++ [1]) _))
  | unary _ x ih | member x _ ih | keep x _ ih | drop x _ ih | shift _ x _ _ _ ih
  | aggregate _ x _ ih | analytic _ x _ ih =>
    rw [stores, requestAt]
    cases hc : c.cached? path with
    | some s => exact .cached hc .done
    | none => exact .single hc (ih (path ++ [0]) c)

end LineageCache

end DataCube
