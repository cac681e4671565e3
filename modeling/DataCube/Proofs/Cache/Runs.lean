import DataCube.Proofs.Cache.Requests

/-!
# Runs of a lineage cache

Whatever is done to a cache, and in whatever order, what it answers is the lineage of the node that
was asked about.  Slots come and go; while one holds a lineage, dead or alive, it is that of its
node.

* `CacheStep`: what can be done to a cache, with `LineageCache.apply`, `LineageCache.answer?` and
  `LineageCache.events` for what a step leaves, answers and records.
* `LineageCache.run`, `LineageCache.answers`, `LineageCache.history`: the same for many steps.
* `LineageCache.Faithful`: every slot holds the lineage of its node.  Requests keep this
  (`Requests.faithful`), and so does every step (`Faithful.apply`).
* `lineage_answers`: the answers of every run.
-/

namespace DataCube

/-- What can be done to a cache. -/
inductive CacheStep where
  /-- Asks for the lineage of a node, and keeps a handle on it under a name, if one is given. -/
  | request (path : NodePath) (hold? : Option String)
  | release (name : String)
  /-- Looks at the cached lineage of a node. -/
  | read (path : NodePath)
  | evict (path : NodePath)
  | setPolicy (policy : CachePolicy)
  | clone

/-- The lineage in a slot, dead or alive. -/
def CacheSlot.content? : CacheSlot → Option StoredLineage
  | .empty => none
  | .strong s | .weak s => some s

theorem CachePolicy.content?_slot (policy : CachePolicy) (s : StoredLineage) :
    (policy.slot s).content? = some s := by
  cases policy <;> rfl

namespace LineageCache

/-! ## Steps -/

/-- The cache after a step. -/
def apply (c : LineageCache) : CacheStep → LineageCache
  | .request path hold? =>
    match c.request? path with
    | none => c
    | some (s, after) =>
      match hold? with
      | none => after
      | some name => after.hold name s
  | .release name => c.release name
  | .read _ => c
  | .evict path => c.evict path
  | .setPolicy policy => c.setPolicy policy
  | .clone => c.clone

/-- What a step answers. -/
def answer? (c : LineageCache) : CacheStep → Option StoredLineage
  | .request path _ => (c.request? path).map Prod.fst
  | .read path => c.cached? path
  | _ => none

/-- What happens in a step. -/
def events (c : LineageCache) : CacheStep → List CacheEvent
  | .request path hold? =>
    match c.expr.at? path with
    | none => []
    | some e =>
      stores e path c ++ (hold?.map fun name => .held name (requestAt e path c).1).toList
  | .release name => [.released name]
  | .evict path => [.evicted path]
  | .clone => [.cloned]
  | .read _ | .setPolicy _ => []

/-- The cache after a list of steps. -/
def run (c : LineageCache) (steps : List CacheStep) : LineageCache := steps.foldl apply c

/-- What the steps of a list answer. -/
def answers (c : LineageCache) : List CacheStep → List (Option StoredLineage)
  | [] => []
  | step :: steps => c.answer? step :: (c.apply step).answers steps

/-- What happens in a list of steps. -/
def history (c : LineageCache) : List CacheStep → List CacheEvent
  | [] => []
  | step :: steps => c.events step ++ (c.apply step).history steps

variable {c c' : LineageCache} {path : NodePath} {s : StoredLineage}

/-- A request for a node ends in its answer, with a handle on it if it is to be kept. -/
theorem apply_request {e : Expr} (he : c.expr.at? path = some e) (hold? : Option String) :
    c.apply (.request path hold?) = match hold? with
      | none => (requestAt e path c).2
      | some name => (requestAt e path c).2.hold name (requestAt e path c).1 := by
  rw [apply, request?, he]
  rfl

/-- A request for something that is no node does nothing. -/
theorem apply_request_none (he : c.expr.at? path = none) (hold? : Option String) :
    c.apply (.request path hold?) = c := by
  rw [apply, request?, he]
  rfl

theorem events_request {e : Expr} (he : c.expr.at? path = some e) (hold? : Option String) :
    c.events (.request path hold?) =
      stores e path c ++ (hold?.map fun name => .held name (requestAt e path c).1).toList := by
  rw [events, he]

theorem events_request_none (he : c.expr.at? path = none) (hold? : Option String) :
    c.events (.request path hold?) = [] := by
  rw [events, he]

/-- The expression is always the same. -/
theorem expr_apply (c : LineageCache) (step : CacheStep) : (c.apply step).expr = c.expr := by
  cases step with
  | request path hold? =>
    cases he : c.expr.at? path with
    | none => rw [apply_request_none he]
    | some e =>
      rw [apply_request he]
      cases hold? <;> exact (requests_requestAt e path c).kept.1
  | release _ | read _ | evict _ | setPolicy _ | clone => rfl

/-! ## Slots -/

theorem content?_of_cached? (h : c.cached? path = some s) : (c.slotAt path).content? = some s := by
  unfold cached? read at h
  split at h
  · nomatch h
  · rename_i t hslot
    cases h
    rw [hslot]
    rfl
  · rename_i t hslot
    split at h
    · cases h
      rw [hslot]
      rfl
    · nomatch h

/-- A clone keeps the slots of the expressions of clauses. -/
theorem slotAt_clone (c : LineageCache) (path : NodePath) :
    c.clone.slotAt path = if entersClause c.expr path then c.slotAt path else .empty := by
  unfold clone slotAt
  rw [List.find?_filter]
  split
  · rename_i h
    congr 3
    funext e
    by_cases he : e.1 = path
    · simp [he, h]
    · simp [he]
  · rename_i h
    have hnone : (c.slots.find? fun e => decide (entersClause c.expr e.1 = true ∧
        decide (e.1 = path) = true)) = none := by
      refine List.find?_eq_none.2 fun e _ he => ?_
      obtain ⟨henters, hpath⟩ := of_decide_eq_true he
      rw [of_decide_eq_true hpath] at henters
      exact h henters
    rw [hnone]
    rfl

/-! ## Faithfulness -/

/-- Every slot that holds something holds the lineage of its node. -/
def Faithful (c : LineageCache) : Prop :=
  ∀ path s, (c.slotAt path).content? = some s →
    ∃ e, c.expr.at? path = some e ∧ s.lineage = e.lineage

namespace Faithful

theorem start (e : Expr) (policy : CachePolicy) : (LineageCache.start e policy).Faithful :=
  fun _ _ h => nomatch h

/-- A lineage that is stored for its node. -/
theorem keep (h : c.Faithful) {e : Expr} (he : c.expr.at? path = some e)
    {make : Nat → StoredLineage} (hmake : (make c.next).lineage = e.lineage) :
    (c.keep path make).2.Faithful := by
  intro path' s hs
  unfold LineageCache.keep at hs
  rw [slotAt_setSlot] at hs
  split at hs
  · rename_i hpath
    rw [CachePolicy.content?_slot] at hs
    cases hs
    rw [hpath]
    exact ⟨e, he, hmake⟩
  · exact h path' s hs

end Faithful

/-- Requests answer the lineages of their nodes, and store nothing else. -/
theorem Requests.faithful {nodes : List (NodePath × Expr)} {answers : List StoredLineage}
    {events : List CacheEvent} (h : Requests nodes c answers events c')
    (hnodes : ∀ n ∈ nodes, c.expr.at? n.1 = some n.2) (hc : c.Faithful) :
    c'.Faithful ∧
      List.Forall₂ (fun n s => StoredLineage.lineage s = n.2.lineage) nodes answers := by
  induction h with
  | done => exact ⟨hc, .nil⟩
  | cached hs _ ih =>
    obtain ⟨hnode, hnodes⟩ := List.forall_mem_cons.1 hnodes
    obtain ⟨e, he, hlineage⟩ := hc _ _ (content?_of_cached? hs)
    rw [hnode] at he
    cases he
    obtain ⟨hc', hanswers⟩ := ih hnodes hc
    exact ⟨hc', .cons hlineage hanswers⟩
  | @made nodes c c₁ c' path e sources answers below events _ hsources _ ihsources ih =>
    obtain ⟨hnode, hnodes⟩ := List.forall_mem_cons.1 hnodes
    obtain ⟨hc₁, hlineages⟩ :=
      ihsources (fun n hn => Expr.at?_of_mem_operandsAt hnode hn) hc
    have hexpr : c₁.expr = c.expr := hsources.kept.1
    have hlineage (id : Nat) : (e.stored id sources).lineage = e.lineage := by
      refine Expr.lineage_stored (forall₂_of_zipIdx ?_) id
      exact List.forall₂_map_left_iff.1 hlineages
    obtain ⟨hc', hanswers⟩ := ih (fun n hn => (congrArg (Expr.at? · n.1) hexpr).trans (hnodes n hn))
      (hc₁.keep ((congrArg (Expr.at? · path) hexpr).trans hnode) (hlineage _))
    exact ⟨hc', .cons (hlineage _) hanswers⟩

theorem faithful_requestAt (hc : c.Faithful) {e : Expr} (he : c.expr.at? path = some e) :
    (requestAt e path c).2.Faithful ∧ (requestAt e path c).1.lineage = e.lineage := by
  have hnodes : ∀ n ∈ [(path, e)], c.expr.at? n.1 = some n.2 := by
    intro n hn
    rw [List.mem_singleton.1 hn]
    exact he
  obtain ⟨hc', hanswers⟩ := (requests_requestAt e path c).faithful hnodes hc
  exact ⟨hc', (List.forall₂_cons.1 hanswers).1⟩

/-- Every step keeps slots faithful. -/
theorem Faithful.apply (hc : c.Faithful) (step : CacheStep) : (c.apply step).Faithful := by
  cases step with
  | request path hold? =>
    cases he : c.expr.at? path with
    | none =>
      rw [apply_request_none he]
      exact hc
    | some e =>
      rw [apply_request he]
      cases hold? <;> exact (faithful_requestAt hc he).1
  | evict path =>
    intro path' s hs
    rw [LineageCache.apply, evict, slotAt_setSlot] at hs
    split at hs
    · nomatch hs
    · exact hc path' s hs
  | clone =>
    intro path' s hs
    rw [LineageCache.apply, slotAt_clone] at hs
    split at hs
    · exact hc path' s hs
    · nomatch hs
  | release _ | read _ | setPolicy _ => exact hc

end LineageCache

/-! ## Answers -/

/-- What a step over an expression has to answer: a request always the lineage of its node, a look
at the cache that or nothing. -/
def CacheStep.Answered (e : Expr) : CacheStep → Option StoredLineage → Prop
  | .request path _, answer =>
    match e.at? path with
    | none => answer = none
    | some x => ∃ s, answer = some s ∧ s.lineage = x.lineage
  | .read path, answer => ∀ s, answer = some s → ∃ x, e.at? path = some x ∧ s.lineage = x.lineage
  | _, answer => answer = none

theorem LineageCache.Faithful.answered {c : LineageCache} (hc : c.Faithful) (step : CacheStep) :
    step.Answered c.expr (c.answer? step) := by
  cases step with
  | request path hold? =>
    show match c.expr.at? path with
      | none => ((c.expr.at? path).map fun e => requestAt e path c).map Prod.fst = none
      | some x => ∃ s, ((c.expr.at? path).map fun e => requestAt e path c).map Prod.fst = some s ∧
          s.lineage = x.lineage
    cases he : c.expr.at? path with
    | none => rfl
    | some e => exact ⟨_, rfl, (faithful_requestAt hc he).2⟩
  | read path => exact fun s hs => hc path s (content?_of_cached? hs)
  | release _ | evict _ | setPolicy _ | clone => rfl

/-- Whatever is done to the cache of an expression, every lineage that it answers or reports is the
lineage of the node, as it is without a cache. -/
theorem lineage_answers (e : Expr) (policy : CachePolicy) (steps : List CacheStep) :
    List.Forall₂ (CacheStep.Answered e) steps ((LineageCache.start e policy).answers steps) := by
  suffices h : ∀ c : LineageCache, c.Faithful → c.expr = e →
      List.Forall₂ (CacheStep.Answered e) steps (c.answers steps) from
    h _ (.start e policy) rfl
  induction steps with
  | nil => exact fun _ _ _ => .nil
  | cons step steps ih =>
    rintro c hc rfl
    exact .cons (hc.answered step) (ih _ (hc.apply step) (c.expr_apply step))

end DataCube
