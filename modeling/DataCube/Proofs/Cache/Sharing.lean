import DataCube.Proofs.Cache.Runs

/-!
# Lineages in memory

A lineage in memory is told by the number of its allocation, and is held if a root has an allocation
of this number among its sources.  That is the same as having the lineage itself among its sources,
since no number is given twice.

* `StoredLineage.Within`: a lineage is another one or one of its sources, at any depth.
  `StoredLineage.reaches_iff` reads it off numbers.
* `StoredLineage.Coherent`: allocations of one number are one lineage.
* `LineageCache.Coherent`: this holds of all that a cache knows.  Requests keep it, their answers
  included (`Requests.coherent`), and so does every step (`Coherent.apply`).
* `LineageCache.Holds`, `LineageCache.cached?_eq_some_iff`: what a cache holds, and what it gives.
-/

namespace DataCube

namespace StoredLineage

/-- The lineage is the other one, or one of its sources at any depth. -/
inductive Within (s : StoredLineage) : StoredLineage → Prop where
  | self : Within s s
  | source {id : Nat} {label : String} {sources : List StoredLineage} {t : StoredLineage} :
      t ∈ sources → Within s t → Within s (.node id label sources)

theorem Within.trans {s t u : StoredLineage} (hst : s.Within t) (htu : t.Within u) :
    s.Within u := by
  induction htu with
  | self => exact hst
  | source ht _ ih => exact .source ht ih

mutual

/-- Reaching a number is having a lineage of this number within. -/
theorem reaches_iff {target : Nat} (t : StoredLineage) :
    t.reaches target = true ↔ ∃ s : StoredLineage, s.Within t ∧ s.id = target := by
  match t with
  | .known id name =>
    rw [reaches, decide_eq_true_iff]
    constructor
    · rintro rfl
      exact ⟨_, .self, rfl⟩
    · rintro ⟨s, hs, rfl⟩
      cases hs
      rfl
  | .node id label sources =>
    rw [reaches, Bool.or_eq_true, decide_eq_true_iff, anyReaches_iff sources]
    constructor
    · rintro (rfl | ⟨t, ht, s, hs, rfl⟩)
      · exact ⟨_, .self, rfl⟩
      · exact ⟨s, .source ht hs, rfl⟩
    · rintro ⟨s, hs, rfl⟩
      cases hs with
      | self => exact .inl rfl
      | source ht hs => exact .inr ⟨_, ht, s, hs, rfl⟩

theorem anyReaches_iff {target : Nat} (ts : List StoredLineage) :
    anyReaches target ts = true ↔ ∃ t ∈ ts, ∃ s : StoredLineage, s.Within t ∧ s.id = target := by
  match ts with
  | [] => exact ⟨fun h => (nomatch h), fun ⟨_, h, _⟩ => (nomatch h)⟩
  | t :: ts =>
    rw [anyReaches, Bool.or_eq_true, reaches_iff t, anyReaches_iff ts]
    simp only [List.mem_cons, exists_eq_or_imp]

end

/-- A lineage that is made of others has nothing else within. -/
theorem within_stored {e : Expr} {id : Nat} {sources : List StoredLineage} {s : StoredLineage}
    (h : s.Within (e.stored id sources)) :
    s = e.stored id sources ∨ ∃ t ∈ sources, s.Within t := by
  generalize hmade : e.stored id sources = made at h
  cases h with
  | self => exact .inl rfl
  | source ht hs =>
    right
    cases e with
    | constant v | var name => nomatch hmade
    | _ =>
      cases hmade
      exact ⟨_, ht, hs⟩

/-- The lineages of a list and all within them have numbers below the next one, and are equal if
their numbers are. -/
structure Coherent (next : Nat) (known : List StoredLineage) : Prop where
  fresh : ∀ x ∈ known, ∀ s : StoredLineage, s.Within x → s.id < next
  unique : ∀ x ∈ known, ∀ y ∈ known, ∀ s t : StoredLineage,
    s.Within x → t.Within y → s.id = t.id → s = t

namespace Coherent

variable {next : Nat} {known known' sources : List StoredLineage}

theorem mono (h : Coherent next known) (hknown : known' ⊆ known) : Coherent next known' where
  fresh x hx := h.fresh x (hknown hx)
  unique x hx y hy := h.unique x (hknown hx) y (hknown hy)

/-- A new lineage is made of known ones, and takes the next number. -/
theorem made (h : Coherent next known) (hsources : sources ⊆ known) (e : Expr) :
    Coherent (next + 1) (e.stored next sources :: known) := by
  have hwithin : ∀ x ∈ e.stored next sources :: known, ∀ s : StoredLineage, s.Within x →
      s = e.stored next sources ∨ ∃ y ∈ known, s.Within y := by
    intro x hx s hs
    rcases List.mem_cons.1 hx with rfl | hx
    · exact (within_stored hs).imp_right fun ⟨t, ht, hs⟩ => ⟨t, hsources ht, hs⟩
    · exact .inr ⟨x, hx, hs⟩
  refine ⟨fun x hx s hs => ?_, fun x hx y hy s t hs ht hid => ?_⟩
  · rcases hwithin x hx s hs with rfl | ⟨y, hy, hs⟩
    · rw [e.id_stored]
      exact Nat.lt_succ_self next
    · exact Nat.lt_succ_of_lt (h.fresh y hy s hs)
  · -- one new and one old lineage have different numbers
    rcases hwithin x hx s hs with rfl | ⟨x', hx', hs⟩
    · rcases hwithin y hy t ht with rfl | ⟨y', hy', ht⟩
      · rfl
      · have hlt := h.fresh y' hy' t ht
        rw [← hid, e.id_stored] at hlt
        exact absurd hlt (Nat.lt_irrefl next)
    · rcases hwithin y hy t ht with rfl | ⟨y', hy', ht⟩
      · have hlt := h.fresh x' hx' s hs
        rw [hid, e.id_stored] at hlt
        exact absurd hlt (Nat.lt_irrefl next)
      · exact h.unique x' hx' y' hy' s t hs ht hid

end Coherent

end StoredLineage

namespace LineageCache

variable {c c' : LineageCache} {path : NodePath} {s t : StoredLineage}

/-! ## What a cache knows -/

/-- The lineages that a cache has a handle or a slot for, dead or alive. -/
def known (c : LineageCache) : List StoredLineage :=
  c.handles.map Prod.snd ++ c.slots.filterMap (·.2.content?) ++ c.single.content?.toList

/-- Nothing that the cache knows shares its number with something else. -/
def Coherent (c : LineageCache) : Prop := StoredLineage.Coherent c.next c.known

theorem mem_known : s ∈ c.known ↔ (∃ h ∈ c.handles, h.2 = s) ∨
    (∃ x ∈ c.slots, x.2.content? = some s) ∨ c.single.content? = some s := by
  simp only [known, List.mem_append, List.mem_map, List.mem_filterMap, Option.mem_toList, or_assoc]

theorem mem_held {slot : CacheSlot} : s ∈ slot.held ↔ slot = .strong s := by
  cases slot <;> simp [CacheSlot.held, eq_comm]

theorem mem_roots : s ∈ c.roots ↔
    (∃ h ∈ c.handles, h.2 = s) ∨ (∃ x ∈ c.slots, x.2 = .strong s) ∨ c.single = .strong s := by
  simp only [roots, List.mem_append, List.mem_map, List.mem_flatMap, mem_held, or_assoc]

theorem roots_subset_known : c.roots ⊆ c.known := by
  intro s hs
  rw [mem_known]
  refine (mem_roots.1 hs).imp_right fun h => h.imp ?_ ?_
  · rintro ⟨x, hx, hslot⟩
    exact ⟨x, hx, by rw [hslot]; rfl⟩
  · intro hsingle
    rw [hsingle]
    rfl

/-- A slot that is not empty is one of the list. -/
theorem exists_mem_slots (h : c.slotAt path ≠ .empty) : (path, c.slotAt path) ∈ c.slots := by
  unfold slotAt at h ⊢
  cases hfind : c.slots.find? fun e => e.1 = path with
  | none =>
    rw [hfind] at h
    exact absurd rfl h
  | some x =>
    have hpath : x.1 = path := by simpa using List.find?_some hfind
    have hx := List.mem_of_find?_eq_some hfind
    rw [← hpath]
    exact hx

theorem mem_known_of_content? (h : (c.slotAt path).content? = some s) : s ∈ c.known := by
  have hne : c.slotAt path ≠ .empty := by
    intro hempty
    rw [hempty] at h
    nomatch h
  exact mem_known.2 (.inr (.inl ⟨_, exists_mem_slots hne, h⟩))

theorem known_keep_subset (make : Nat → StoredLineage) :
    (c.keep path make).2.known ⊆ make c.next :: c.known := by
  intro s hs
  rw [List.mem_cons, mem_known]
  rcases mem_known.1 hs with hs | ⟨x, hx, hs⟩ | hs
  · exact .inr (.inl hs)
  · rcases List.mem_cons.1 hx with rfl | hx
    · rw [CachePolicy.content?_slot] at hs
      exact .inl (Option.some.inj hs).symm
    · exact .inr (.inr (.inl ⟨x, List.mem_of_mem_filter hx, hs⟩))
  · exact .inr (.inr (.inr hs))

/-- The other cache has handles and slots of the first one, and otherwise empty slots. -/
structure Sheds (c c' : LineageCache) : Prop where
  handles : ∀ h ∈ c'.handles, h ∈ c.handles
  slots : ∀ x ∈ c'.slots, x ∈ c.slots ∨ x.2 = .empty
  single : c'.single = c.single
  next : c'.next = c.next

namespace Sheds

theorem release (c : LineageCache) (name : String) : c.Sheds (c.release name) where
  handles _ hh := List.mem_of_mem_filter hh
  slots _ hx := .inl hx
  single := rfl
  next := rfl

theorem evict (c : LineageCache) (path : NodePath) : c.Sheds (c.evict path) where
  handles _ hh := hh
  slots x hx := by
    rcases List.mem_cons.1 hx with rfl | hx
    · exact .inr rfl
    · exact .inl (List.mem_of_mem_filter hx)
  single := rfl
  next := rfl

theorem clone (c : LineageCache) : c.Sheds c.clone where
  handles _ hh := hh
  slots _ hx := .inl (List.mem_of_mem_filter hx)
  single := rfl
  next := rfl

theorem known_subset (h : c.Sheds c') : c'.known ⊆ c.known := by
  intro s hs
  rcases mem_known.1 hs with ⟨x, hx, hs⟩ | ⟨x, hx, hs⟩ | hs
  · exact mem_known.2 (.inl ⟨x, h.handles x hx, hs⟩)
  · rcases h.slots x hx with hx | hempty
    · exact mem_known.2 (.inr (.inl ⟨x, hx, hs⟩))
    · rw [hempty] at hs
      nomatch hs
  · exact mem_known.2 (.inr (.inr (h.single ▸ hs)))

theorem roots_subset (h : c.Sheds c') : c'.roots ⊆ c.roots := by
  intro s hs
  rcases mem_roots.1 hs with ⟨x, hx, hs⟩ | ⟨x, hx, hs⟩ | hs
  · exact mem_roots.2 (.inl ⟨x, h.handles x hx, hs⟩)
  · rcases h.slots x hx with hx | hempty
    · exact mem_roots.2 (.inr (.inl ⟨x, hx, hs⟩))
    · rw [hempty] at hs
      nomatch hs
  · exact mem_roots.2 (.inr (.inr (h.single ▸ hs)))

end Sheds

/-! ## Coherence -/

/-- Requests keep what is known apart, with their answers and with what is held meanwhile. -/
theorem Requests.coherent_append {nodes : List (NodePath × Expr)} {answers : List StoredLineage}
    {events : List CacheEvent} (h : Requests nodes c answers events c')
    {others : List StoredLineage} (hc : StoredLineage.Coherent c.next (others ++ c.known)) :
    StoredLineage.Coherent c'.next (answers ++ (others ++ c'.known)) := by
  induction h generalizing others with
  | done => exact hc
  | @cached nodes c c' path e s answers events hs _ ih =>
    have hknown : s ∈ c.known := mem_known_of_content? (content?_of_cached? hs)
    have hwith : StoredLineage.Coherent c.next (s :: others ++ c.known) :=
      hc.mono (List.cons_subset.2 ⟨List.mem_append_right _ hknown, List.Subset.refl _⟩)
    refine (ih hwith).mono (fun x hx => ?_)
    simp only [List.mem_cons, List.mem_append] at hx ⊢
    tauto
  | @made nodes c c₁ c' path e sources answers below events _ _ _ ihsources ih =>
    have hsources := ihsources hc
    have hmade := hsources.made (List.subset_append_left _ _) e
    have hwith : StoredLineage.Coherent (c₁.next + 1)
        (e.stored c₁.next sources :: others ++
          (c₁.keep path fun id => e.stored id sources).2.known) := by
      refine hmade.mono (fun x hx => ?_)
      have hkeep := @known_keep_subset c₁ path fun id => e.stored id sources
      simp only [List.mem_cons, List.mem_append] at hx ⊢
      rcases hx with (hx | hx) | hx
      · exact .inl hx
      · exact .inr (.inr (.inl hx))
      · exact (List.mem_cons.1 (hkeep hx)).imp_right fun hx => .inr (.inr hx)
    refine (ih hwith).mono (fun x hx => ?_)
    simp only [List.mem_cons, List.mem_append] at hx ⊢
    tauto

theorem Requests.coherent {nodes : List (NodePath × Expr)} {answers : List StoredLineage}
    {events : List CacheEvent} (h : Requests nodes c answers events c') (hc : c.Coherent) :
    StoredLineage.Coherent c'.next (answers ++ c'.known) :=
  h.coherent_append (show StoredLineage.Coherent c.next ([] ++ c.known) from hc)

namespace Coherent

theorem start (e : Expr) (policy : CachePolicy) : (LineageCache.start e policy).Coherent where
  fresh _ hx := nomatch hx
  unique _ hx := nomatch hx

theorem shed (hc : c.Coherent) (h : c.Sheds c') : c'.Coherent := by
  unfold LineageCache.Coherent
  rw [h.next]
  exact hc.mono h.known_subset

/-- Every step keeps what is known apart. -/
theorem apply (hc : c.Coherent) (step : CacheStep) : (c.apply step).Coherent := by
  cases step with
  | request path hold? =>
    cases he : c.expr.at? path with
    | none =>
      rw [apply_request_none he]
      exact hc
    | some e =>
      rw [apply_request he]
      have hanswered := (requests_requestAt e path c).coherent hc
      cases hold? with
      | none => exact hanswered.mono (List.subset_append_right _ _)
      | some name =>
        refine hanswered.mono (fun s hs => ?_)
        rw [List.singleton_append, List.mem_cons, mem_known]
        rcases mem_known.1 hs with ⟨h, hh, rfl⟩ | hs
        · rcases List.mem_cons.1 hh with rfl | hh
          · exact .inl rfl
          · exact .inr (.inl ⟨h, List.mem_of_mem_filter hh, rfl⟩)
        · exact .inr (.inr hs)
  | release name => exact hc.shed (.release c name)
  | evict path => exact hc.shed (.evict c path)
  | clone => exact hc.shed (.clone c)
  | read _ | setPolicy _ => exact hc

end Coherent

/-! ## What is held -/

/-- The lineage is held, or within a lineage that is. -/
def Holds (c : LineageCache) (s : StoredLineage) : Prop := ∃ t ∈ c.roots, s.Within t

/-- What the cache knows is alive if it is held. -/
theorem isAlive_iff (hc : c.Coherent) (hs : s ∈ c.known) : c.isAlive s.id = true ↔ c.Holds s := by
  unfold isAlive Holds
  rw [List.any_eq_true]
  refine exists_congr fun t => and_congr_right fun ht => ?_
  rw [StoredLineage.reaches_iff]
  constructor
  · rintro ⟨u, hu, hid⟩
    rwa [← hc.unique t (roots_subset_known ht) s hs u s hu .self hid]
  · exact fun h => ⟨s, h, rfl⟩

/-- The cached lineage of a node is the one in its slot, if the slot is strong or the lineage held.
-/
theorem cached?_eq_some_iff (hc : c.Coherent) : c.cached? path = some s ↔
    c.slotAt path = .strong s ∨ c.slotAt path = .weak s ∧ c.Holds s := by
  unfold cached? read
  cases hslot : c.slotAt path with
  | empty => simp
  | strong t => simp
  | weak t =>
    have hknown : t ∈ c.known := mem_known_of_content? (by rw [hslot]; rfl)
    have halive := isAlive_iff hc hknown
    by_cases ht : c.Holds t
    · simp only [halive.2 ht, if_true, Option.some.injEq, CacheSlot.weak.injEq, reduceCtorEq,
        false_or]
      exact ⟨fun h => ⟨h, h ▸ ht⟩, fun h => h.1⟩
    · simp only [mt halive.1 ht, if_false, reduceCtorEq, CacheSlot.weak.injEq, false_or, false_iff]
      exact fun h => ht (h.1 ▸ h.2)

end LineageCache

end DataCube
