import DataCube.Proofs.Cache.Sharing

/-!
# How long a lineage is cached

What a cache gives can be told from what happened to it: it gives the lineage that was stored for a
node last, unless the node was evicted since or the expression cloned, as long as the lineage was
stored under the strong policy or something that is held still has it among its sources.

* `Since`: an event that nothing has undone.  `StoredSince` is a lineage stored for a node,
  `HeldSince` a handle.
* `LineageCache.Reflects`: slots and handles are what the history says.  Requests keep this
  (`Requests.reflects`), and so does every step (`Reflects.apply`).
* `Requests.persists`: requests take nothing from what is cached.
* `Requests.holds`, `holds_apply`: nothing comes back to life.
* `cached_lifetime`: when a lineage is cached, and that it is the same one while it is.
-/

namespace DataCube

/-! ## Histories -/

namespace CacheEvent

/-- After the event, a lineage stored for the node before is no longer in its slot.  A clone leaves
alone the slots of the nodes that it shares. -/
def Clears (shared : NodePath → Bool) (path : NodePath) : CacheEvent → Prop
  | stored p _ _ | evicted p => p = path
  | cloned => shared path = false
  | held _ _ | released _ => False

/-- After the event, what was kept under the name before is no longer. -/
def Drops (name : String) : CacheEvent → Prop
  | held n _ | released n => n = name
  | stored _ _ _ | evicted _ | cloned => False

variable {shared : NodePath → Bool} {path p : NodePath} {policy : CachePolicy} {s : StoredLineage}
  {name n : String}

theorem clears_stored : (stored p policy s).Clears shared path ↔ p = path := Iff.rfl

theorem clears_evicted : (evicted p).Clears shared path ↔ p = path := Iff.rfl

theorem drops_held : (held n s).Drops name ↔ n = name := Iff.rfl

theorem drops_released : (released n).Drops name ↔ n = name := Iff.rfl

end CacheEvent

/-- The event happened, and none since then that undoes it. -/
def Since (log : List CacheEvent) (event : CacheEvent) (Undoes : CacheEvent → Prop) : Prop :=
  ∃ before after, log = before ++ event :: after ∧ ∀ x ∈ after, ¬ Undoes x

/-- The lineage was stored for the node under a policy, and is still in its slot. -/
def StoredSince (shared : NodePath → Bool) (log : List CacheEvent) (path : NodePath)
    (policy : CachePolicy) (s : StoredLineage) : Prop :=
  Since log (.stored path policy s) (CacheEvent.Clears shared path)

/-- The lineage was kept under a name, and still is. -/
def HeldSince (log : List CacheEvent) (name : String) (s : StoredLineage) : Prop :=
  Since log (.held name s) (CacheEvent.Drops name)

section Since

variable {log events : List CacheEvent} {event x : CacheEvent} {Undoes : CacheEvent → Prop}

theorem not_since_nil : ¬ Since [] event Undoes := by
  rintro ⟨before, after, hlog, -⟩
  cases before <;> nomatch hlog

/-- The last event is the one, or it does not undo it. -/
theorem since_concat :
    Since (log ++ [x]) event Undoes ↔ x = event ∨ ¬ Undoes x ∧ Since log event Undoes := by
  constructor
  · rintro ⟨before, after, hlog, hafter⟩
    rcases List.eq_nil_or_concat after with rfl | ⟨after, y, rfl⟩
    · obtain ⟨-, hx⟩ := List.append_inj' hlog rfl
      cases hx
      exact .inl rfl
    · rw [List.concat_eq_append, ← List.cons_append, ← List.append_assoc] at hlog
      obtain ⟨hbefore, hx⟩ := List.append_inj' hlog rfl
      cases hx
      simp only [List.concat_eq_append, List.mem_append, List.mem_singleton] at hafter
      exact .inr ⟨hafter x (.inr rfl), before, after, hbefore, fun y hy => hafter y (.inl hy)⟩
  · rintro (rfl | ⟨hx, before, after, rfl, hafter⟩)
    · exact ⟨log, [], rfl, fun _ h => nomatch h⟩
    · refine ⟨before, after ++ [x], by rw [List.append_assoc, List.cons_append], fun y hy => ?_⟩
      rcases List.mem_append.1 hy with hy | hy
      · exact hafter y hy
      · rw [List.mem_singleton.1 hy]
        exact hx

/-- What no event undoes was there before, or is one of the events. -/
theorem since_append (h : Since (log ++ events) event Undoes) :
    event ∈ events ∨ Since log event Undoes := by
  induction events generalizing log with
  | nil =>
    rw [List.append_nil] at h
    exact .inr h
  | cons x events ih =>
    rw [← List.singleton_append, ← List.append_assoc] at h
    rcases ih h with hmem | h
    · exact .inl (List.mem_cons_of_mem x hmem)
    · rcases since_concat.1 h with rfl | ⟨-, h⟩
      · exact .inl List.mem_cons_self
      · exact .inr h

variable {shared : NodePath → Bool} {path : NodePath} {policy : CachePolicy} {s : StoredLineage}
  {name : String}

theorem storedSince_concat (hx : ¬ x.Clears shared path) :
    StoredSince shared (log ++ [x]) path policy s ↔ StoredSince shared log path policy s := by
  have hne : x ≠ .stored path policy s := by
    rintro rfl
    exact hx rfl
  rw [StoredSince, since_concat, or_iff_right hne, and_iff_right hx]
  rfl

theorem storedSince_concat_of_clears (hx : x.Clears shared path) :
    StoredSince shared (log ++ [x]) path policy s ↔ x = .stored path policy s := by
  rw [StoredSince, since_concat, or_iff_left fun h => h.1 hx]

theorem heldSince_concat (hx : ¬ x.Drops name) :
    HeldSince (log ++ [x]) name s ↔ HeldSince log name s := by
  have hne : x ≠ .held name s := by
    rintro rfl
    exact hx rfl
  rw [HeldSince, since_concat, or_iff_right hne, and_iff_right hx]
  rfl

theorem heldSince_concat_of_drops (hx : x.Drops name) :
    HeldSince (log ++ [x]) name s ↔ x = .held name s := by
  rw [HeldSince, since_concat, or_iff_left fun h => h.1 hx]

end Since

namespace LineageCache

variable {c c' c₁ : LineageCache} {path path' : NodePath} {s t : StoredLineage}
  {nodes : List (NodePath × Expr)} {answers : List StoredLineage} {events : List CacheEvent}

/-! ## Slots -/

theorem slot_eq_slot {policy policy' : CachePolicy} :
    policy.slot s = policy'.slot t ↔ policy = policy' ∧ s = t := by
  cases policy <;> cases policy' <;> simp [CachePolicy.slot]

theorem empty_ne_slot (policy : CachePolicy) : CacheSlot.empty ≠ policy.slot s := by
  cases policy <;> exact nofun

/-- There is one slot for each node. -/
def Tidy (c : LineageCache) : Prop := ∀ x ∈ c.slots, c.slotAt x.1 = x.2

theorem Tidy.setSlot (hc : c.Tidy) (path : NodePath) (slot : CacheSlot) :
    (c.setSlot path slot).Tidy := by
  intro x hx
  rw [slotAt_setSlot]
  rcases List.mem_cons.1 hx with rfl | hx
  · exact if_pos rfl
  · obtain ⟨hx, hne⟩ := List.mem_filter.1 hx
    rw [if_neg (of_decide_eq_true hne)]
    exact hc x hx

theorem Tidy.clone (hc : c.Tidy) : c.clone.Tidy := by
  intro x hx
  obtain ⟨hx, hclause⟩ := List.mem_filter.1 hx
  rw [slotAt_clone, if_pos hclause]
  exact hc x hx

/-! ## Reflecting a history -/

/-- Slots and handles are what is left of the events. -/
structure Reflects (log : List CacheEvent) (c : LineageCache) : Prop where
  tidy : c.Tidy
  slots : ∀ path policy s, c.slotAt path = CachePolicy.slot policy s ↔
    StoredSince (entersClause c.expr) log path policy s
  handles : ∀ name s, (name, s) ∈ c.handles ↔ HeldSince log name s
  single : c.single = .empty

namespace Reflects

variable {log : List CacheEvent}

theorem start (e : Expr) (policy : CachePolicy) : Reflects [] (LineageCache.start e policy) where
  tidy _ hx := nomatch hx
  slots _ policy _ := ⟨fun h => absurd h (empty_ne_slot policy), fun h => absurd h not_since_nil⟩
  handles _ _ := ⟨fun h => (nomatch h), fun h => absurd h not_since_nil⟩
  single := rfl

theorem keep (h : Reflects log c) (path : NodePath) (make : Nat → StoredLineage) :
    Reflects (log ++ [.stored path c.policy (make c.next)]) (c.keep path make).2 where
  tidy := Tidy.setSlot h.tidy path _
  slots path' policy s := by
    unfold LineageCache.keep
    rw [slotAt_setSlot]
    by_cases hpath : path' = path
    · rw [if_pos hpath, slot_eq_slot,
        storedSince_concat_of_clears (CacheEvent.clears_stored.2 hpath.symm), hpath]
      simp only [CacheEvent.stored.injEq, true_and]
    · have hother : ¬ (CacheEvent.stored path c.policy (make c.next)).Clears
          (entersClause c.expr) path' :=
        mt CacheEvent.clears_stored.1 (Ne.symm hpath)
      rw [if_neg hpath]
      exact (h.slots path' policy s).trans (storedSince_concat hother).symm
  handles name s := (h.handles name s).trans (heldSince_concat id).symm
  single := h.single

theorem evict (h : Reflects log c) (path : NodePath) :
    Reflects (log ++ [.evicted path]) (c.evict path) where
  tidy := Tidy.setSlot h.tidy path _
  slots path' policy s := by
    unfold LineageCache.evict
    rw [slotAt_setSlot]
    by_cases hpath : path' = path
    · rw [if_pos hpath, storedSince_concat_of_clears (CacheEvent.clears_evicted.2 hpath.symm)]
      simp only [empty_ne_slot, reduceCtorEq]
    · have hother : ¬ (CacheEvent.evicted path).Clears (entersClause c.expr) path' :=
        mt CacheEvent.clears_evicted.1 (Ne.symm hpath)
      rw [if_neg hpath]
      exact (h.slots path' policy s).trans (storedSince_concat hother).symm
  handles name s := (h.handles name s).trans (heldSince_concat id).symm
  single := h.single

theorem clone (h : Reflects log c) : Reflects (log ++ [.cloned]) c.clone where
  tidy := Tidy.clone h.tidy
  slots path' policy s := by
    rw [slotAt_clone]
    by_cases hclause : entersClause c.expr path' = true
    · rw [if_pos hclause]
      refine (h.slots path' policy s).trans (storedSince_concat fun hcleared => ?_).symm
      exact absurd (hclause.symm.trans hcleared) nofun
    · have hclears : CacheEvent.cloned.Clears (entersClause c.expr) path' :=
        Bool.eq_false_iff.2 hclause
      rw [if_neg hclause]
      refine Iff.trans ?_ (storedSince_concat_of_clears hclears).symm
      simp only [empty_ne_slot, reduceCtorEq]
  handles name s := (h.handles name s).trans (heldSince_concat id).symm
  single := h.single

theorem hold (h : Reflects log c) (name : String) (s : StoredLineage) :
    Reflects (log ++ [.held name s]) (c.hold name s) where
  tidy := h.tidy
  slots path policy t := (h.slots path policy t).trans (storedSince_concat id).symm
  handles name' t := by
    unfold LineageCache.hold
    rw [List.mem_cons, List.mem_filter, h.handles]
    by_cases hname : name' = name
    · rw [heldSince_concat_of_drops (CacheEvent.drops_held.2 hname.symm)]
      simp [hname, eq_comm]
    · rw [heldSince_concat (mt CacheEvent.drops_held.1 (Ne.symm hname))]
      simp [hname]
  single := h.single

theorem release (h : Reflects log c) (name : String) :
    Reflects (log ++ [.released name]) (c.release name) where
  tidy := h.tidy
  slots path policy t := (h.slots path policy t).trans (storedSince_concat id).symm
  handles name' t := by
    unfold LineageCache.release
    rw [List.mem_filter, h.handles]
    by_cases hname : name' = name
    · rw [heldSince_concat_of_drops (CacheEvent.drops_released.2 hname.symm)]
      simp [hname]
    · rw [heldSince_concat (mt CacheEvent.drops_released.1 (Ne.symm hname))]
      simp [hname]
  single := h.single

end Reflects

theorem Requests.reflects (h : Requests nodes c answers events c') {log : List CacheEvent}
    (hc : Reflects log c) : Reflects (log ++ events) c' := by
  induction h generalizing log with
  | done =>
    rw [List.append_nil]
    exact hc
  | cached _ _ ih => exact ih hc
  | made _ _ _ ihsources ih =>
    have hkept := ih ((ihsources hc).keep _ _)
    rwa [List.append_assoc, List.append_assoc, List.singleton_append] at hkept

/-- Every step leaves what its events say. -/
theorem Reflects.apply {log : List CacheEvent} (h : Reflects log c) (step : CacheStep) :
    Reflects (log ++ c.events step) (c.apply step) := by
  cases step with
  | request path hold? =>
    cases he : c.expr.at? path with
    | none =>
      rw [apply_request_none he, events_request_none he, List.append_nil]
      exact h
    | some e =>
      rw [apply_request he, events_request he]
      have hrequested := (requests_requestAt e path c).reflects h
      cases hold? with
      | none =>
        rw [Option.map_none, Option.toList_none, List.append_nil]
        exact hrequested
      | some name =>
        rw [Option.map_some, Option.toList_some, ← List.append_assoc]
        exact hrequested.hold name _
  | release name => exact h.release name
  | evict path => exact h.evict path
  | clone => exact h.clone
  | read _ | setPolicy _ =>
    rw [LineageCache.events, List.append_nil]
    exact ⟨h.tidy, h.slots, h.handles, h.single⟩

/-! ## What is cached stays cached -/

theorem cached?_mono (hslot : c'.slotAt path = c.slotAt path) (hroots : c.roots ⊆ c'.roots)
    (h : c.cached? path = some s) : c'.cached? path = some s := by
  unfold cached? read at h ⊢
  rw [hslot]
  split at h
  · nomatch h
  · exact h
  · split at h
    · rename_i halive
      obtain ⟨t, ht, hreaches⟩ := List.any_eq_true.1 halive
      have halive' : c'.isAlive _ = true := List.any_eq_true.2 ⟨t, hroots ht, hreaches⟩
      rw [if_pos halive']
      exact h
    · nomatch h

/-- A lineage that is stored where none is held takes nothing from what is held. -/
theorem roots_subset_keep (hc : c.Tidy) (hpath : ∀ t, c.slotAt path ≠ .strong t)
    (make : Nat → StoredLineage) : c.roots ⊆ (c.keep path make).2.roots := by
  intro s hs
  rw [mem_roots]
  refine (mem_roots.1 hs).imp_right fun h => h.imp_left ?_
  rintro ⟨x, hx, hslot⟩
  refine ⟨x, List.mem_cons_of_mem _ (List.mem_filter.2 ⟨hx, decide_eq_true ?_⟩), hslot⟩
  rintro rfl
  exact hpath s ((hc x hx).trans hslot)

theorem roots_keep_subset (make : Nat → StoredLineage) :
    (c.keep path make).2.roots ⊆ make c.next :: c.roots := by
  intro s hs
  rw [List.mem_cons, mem_roots]
  rcases mem_roots.1 hs with hs | ⟨x, hx, hslot⟩ | hs
  · exact .inr (.inl hs)
  · rcases List.mem_cons.1 hx with rfl | hx
    · left
      have hcontent := CachePolicy.content?_slot c.policy (make c.next)
      simp only at hslot
      rw [hslot] at hcontent
      exact Option.some.inj hcontent
    · exact .inr (.inr (.inl ⟨x, List.mem_of_mem_filter hx, hslot⟩))
  · exact .inr (.inr (.inr hs))

/-- Requests store nothing but at nodes below those that are asked for. -/
theorem Requests.slotAt_eq (h : Requests nodes c answers events c')
    (hpath : ∀ n ∈ nodes, ¬ n.1 <+: path) : c'.slotAt path = c.slotAt path := by
  induction h with
  | done => rfl
  | cached _ _ ih => exact ih (List.forall_mem_cons.1 hpath).2
  | @made nodes c c₁ c' p e sources answers below events _ _ _ ihsources ih =>
    obtain ⟨hnode, hnodes⟩ := List.forall_mem_cons.1 hpath
    have hne : path ≠ p := by
      rintro rfl
      exact hnode (List.prefix_refl path)
    rw [ih hnodes]
    unfold keep
    rw [slotAt_setSlot, if_neg hne]
    refine ihsources fun n hn hbelow => ?_
    obtain ⟨x, -, rfl⟩ := List.mem_map.1 hn
    exact hnode ((List.prefix_append p _).trans hbelow)

/-- Requests leave alone what is cached, and let go of nothing. -/
theorem Requests.persists (h : Requests nodes c answers events c') (hc : c.Tidy) :
    c'.Tidy ∧ c.roots ⊆ c'.roots ∧
      ∀ path s, c.cached? path = some s → c'.slotAt path = c.slotAt path := by
  induction h with
  | done => exact ⟨hc, List.Subset.refl _, fun _ _ _ => rfl⟩
  | cached _ _ ih => exact ih hc
  | @made nodes c c₁ c' p e sources answers below events hnone hsources _ ihsources ih =>
    obtain ⟨htidy, hroots, hslots⟩ := ihsources hc
    have hslot : c₁.slotAt p = c.slotAt p := by
      refine hsources.slotAt_eq fun n hn hbelow => ?_
      obtain ⟨x, -, rfl⟩ := List.mem_map.1 hn
      have hlength := hbelow.length_le
      rw [List.length_append, List.length_singleton] at hlength
      exact absurd hlength (Nat.not_succ_le_self _)
    have hempty : ∀ t, c₁.slotAt p ≠ .strong t := by
      intro t ht
      rw [cached?, ← hslot, ht] at hnone
      nomatch hnone
    have hkept := List.Subset.trans hroots
      (roots_subset_keep htidy hempty fun id => e.stored id sources)
    obtain ⟨htidy', hroots', hslots'⟩ := ih (Tidy.setSlot htidy p _)
    refine ⟨htidy', List.Subset.trans hkept hroots', fun path s hs => ?_⟩
    have hne : path ≠ p := by
      rintro rfl
      rw [hnone] at hs
      nomatch hs
    have hslot' : (c₁.keep p fun id => e.stored id sources).2.slotAt path = c.slotAt path := by
      unfold keep
      rw [slotAt_setSlot, if_neg hne]
      exact hslots path s hs
    rw [hslots' path s (cached?_mono hslot' hkept hs), hslot']

/-- What is cached for a node stays in its slot, until the slot is emptied. -/
theorem slotAt_apply (hc : c.Tidy) (h : c.cached? path = some s) (step : CacheStep) :
    (c.apply step).slotAt path = c.slotAt path ∨ (c.apply step).slotAt path = .empty := by
  cases step with
  | request p hold? =>
    left
    cases he : c.expr.at? p with
    | none => rw [apply_request_none he]
    | some e =>
      rw [apply_request he]
      cases hold? <;> exact ((requests_requestAt e p c).persists hc).2.2 path s h
  | evict p =>
    rw [apply, evict, slotAt_setSlot]
    split
    · exact .inr rfl
    · exact .inl rfl
  | clone =>
    rw [apply, slotAt_clone]
    split
    · exact .inl rfl
    · exact .inr rfl
  | release _ | read _ | setPolicy _ => exact .inl rfl

/-! ## What is dead stays dead -/

theorem holds_of_cached? (hc : c.Coherent) (h : c.cached? path = some s) : c.Holds s := by
  rcases (cached?_eq_some_iff hc).1 h with hstrong | ⟨-, hs⟩
  · have hne : c.slotAt path ≠ .empty := by
      rw [hstrong]
      exact nofun
    have hmem := exists_mem_slots hne
    exact ⟨s, mem_roots.2 (.inr (.inl ⟨_, hmem, hstrong⟩)), .self⟩
  · exact hs

theorem Requests.next_le (h : Requests nodes c answers events c') : c.next ≤ c'.next := by
  induction h with
  | done => exact Nat.le_refl _
  | cached _ _ ih => exact ih
  | made _ _ _ ihsources ih =>
    exact Nat.le_of_succ_le (Nat.le_trans (Nat.succ_le_succ ihsources) ih)

/-- What requests answer and what is held afterwards was held before, if it was known. -/
theorem Requests.holds (h : Requests nodes c answers events c') (hc : c.Coherent)
    (hs : s.id < c.next) :
    (∀ t ∈ answers, s.Within t → c.Holds s) ∧ (c'.Holds s → c.Holds s) := by
  induction h with
  | done => exact ⟨fun t ht => absurd ht List.not_mem_nil, id⟩
  | @cached nodes c c' p e u answers events hu _ ih =>
    obtain ⟨hanswers, hheld⟩ := ih hc hs
    refine ⟨List.forall_mem_cons.2 ⟨fun hwithin => ?_, hanswers⟩, hheld⟩
    obtain ⟨t, ht, hut⟩ := holds_of_cached? hc hu
    exact ⟨t, ht, hwithin.trans hut⟩
  | @made nodes c c₁ c' p e sources answers below events hnone hsources _ ihsources ih =>
    obtain ⟨hfound, hheld⟩ := ihsources hc hs
    have hcoherent : (c₁.keep p fun id => e.stored id sources).2.Coherent :=
      ((single hnone hsources).coherent hc).mono (List.subset_append_right _ _)
    have hbefore : s.id < c₁.next := Nat.lt_of_lt_of_le hs hsources.next_le
    obtain ⟨hanswers', hheld'⟩ := ih hcoherent (Nat.lt_succ_of_lt hbefore)
    have hnew : s.Within (e.stored c₁.next sources) → c.Holds s := by
      intro hwithin
      rcases StoredLineage.within_stored hwithin with rfl | ⟨t, ht, hwithin⟩
      · rw [e.id_stored] at hbefore
        exact absurd hbefore (Nat.lt_irrefl _)
      · exact hfound t ht hwithin
    have hkept : (c₁.keep p fun id => e.stored id sources).2.Holds s → c.Holds s := by
      rintro ⟨t, ht, hwithin⟩
      rcases List.mem_cons.1 (roots_keep_subset _ ht) with rfl | ht
      · exact hnew hwithin
      · exact hheld ⟨t, ht, hwithin⟩
    exact ⟨List.forall_mem_cons.2 ⟨hnew, fun t ht hwithin => hkept (hanswers' t ht hwithin)⟩,
      fun hlater => hkept (hheld' hlater)⟩

/-- No step brings back to life what is known and not held. -/
theorem holds_apply (hc : c.Coherent) (hs : s.id < c.next) (step : CacheStep)
    (h : (c.apply step).Holds s) : c.Holds s := by
  obtain ⟨t, ht, hwithin⟩ := h
  cases step with
  | request p hold? =>
    cases he : c.expr.at? p with
    | none =>
      rw [apply_request_none he] at ht
      exact ⟨t, ht, hwithin⟩
    | some e =>
      rw [apply_request he] at ht
      obtain ⟨hanswer, hheld⟩ := (requests_requestAt e p c).holds hc hs
      cases hold? with
      | none => exact hheld ⟨t, ht, hwithin⟩
      | some name =>
        rcases mem_roots.1 ht with ⟨x, hx, rfl⟩ | ht
        · rcases List.mem_cons.1 hx with rfl | hx
          · exact hanswer _ List.mem_cons_self hwithin
          · exact hheld ⟨_, mem_roots.2 (.inl ⟨x, List.mem_of_mem_filter hx, rfl⟩), hwithin⟩
        · exact hheld ⟨t, mem_roots.2 (.inr ht), hwithin⟩
  | release name => exact ⟨t, (Sheds.release c name).roots_subset ht, hwithin⟩
  | evict p => exact ⟨t, (Sheds.evict c p).roots_subset ht, hwithin⟩
  | clone => exact ⟨t, (Sheds.clone c).roots_subset ht, hwithin⟩
  | read _ | setPolicy _ => exact ⟨t, ht, hwithin⟩

/-! ## Runs -/

/-- What is held are the handles and the strongly stored lineages of nodes. -/
theorem Reflects.mem_roots_iff {log : List CacheEvent} (h : Reflects log c) :
    t ∈ c.roots ↔ (∃ name, HeldSince log name t) ∨
      ∃ path, StoredSince (entersClause c.expr) log path .strong t := by
  rw [mem_roots, h.single]
  constructor
  · rintro (⟨x, hx, rfl⟩ | ⟨x, hx, hslot⟩ | hsingle)
    · exact .inl ⟨x.1, (h.handles x.1 x.2).1 hx⟩
    · exact .inr ⟨x.1, (h.slots x.1 .strong t).1 ((h.tidy x hx).trans hslot)⟩
    · nomatch hsingle
  · rintro (⟨name, hheld⟩ | ⟨path, hstored⟩)
    · exact .inl ⟨(name, t), (h.handles name t).2 hheld, rfl⟩
    · have hslot : c.slotAt path = .strong t := (h.slots path .strong t).2 hstored
      exact .inr (.inl ⟨_, exists_mem_slots (by rw [hslot]; exact nofun), hslot⟩)

/-- A cache of an expression after events. -/
structure Recorded (e : Expr) (log : List CacheEvent) (c : LineageCache) : Prop where
  expr : c.expr = e
  faithful : c.Faithful
  coherent : c.Coherent
  reflects : Reflects log c

namespace Recorded

variable {e : Expr} {log : List CacheEvent}

theorem start (e : Expr) (policy : CachePolicy) : Recorded e [] (LineageCache.start e policy) :=
  ⟨rfl, .start e policy, .start e policy, .start e policy⟩

theorem apply (h : Recorded e log c) (step : CacheStep) :
    Recorded e (log ++ c.events step) (c.apply step) :=
  ⟨(c.expr_apply step).trans h.expr, h.faithful.apply step, h.coherent.apply step,
    h.reflects.apply step⟩

theorem run (h : Recorded e log c) (steps : List CacheStep) :
    Recorded e (log ++ c.history steps) (c.run steps) := by
  induction steps generalizing c log with
  | nil =>
    rw [history, List.append_nil]
    exact h
  | cons step steps ih =>
    rw [history, ← List.append_assoc]
    exact ih (h.apply step)

/-- What the cache gives for a node is what its slot has been left with, if that is held. -/
theorem cached?_iff (h : Recorded e log c) : c.cached? path = some s ↔
    ∃ policy, StoredSince (entersClause e) log path policy s ∧ (policy = .strong ∨ c.Holds s) := by
  rw [cached?_eq_some_iff h.coherent]
  have hslots := h.reflects.slots path
  rw [h.expr] at hslots
  constructor
  · rintro (hstrong | ⟨hweak, hs⟩)
    · exact ⟨.strong, (hslots .strong s).1 hstrong, .inl rfl⟩
    · exact ⟨.weak, (hslots .weak s).1 hweak, .inr hs⟩
  · rintro ⟨policy, hstored, hs⟩
    have hslot := (hslots policy s).2 hstored
    cases policy with
    | strong => exact .inl hslot
    | weak => exact .inr ⟨hslot, hs.resolve_left nofun⟩

/-- What is cached is given for every request, and nothing is stored. -/
theorem request?_eq (h : Recorded e log c) (hs : c.cached? path = some s) :
    c.request? path = some (s, c) ∧ c.events (.request path none) = [] := by
  obtain ⟨x, hx, -⟩ := h.faithful path s (content?_of_cached? hs)
  constructor
  · rw [request?, hx, Option.map_some, requestAt_of_cached? hs]
  · rw [events_request hx, stores_of_cached? hs]
    rfl

/-- What is cached after a step and was before is the same. -/
theorem eq_of_apply (h : Recorded e log c) {step : CacheStep} (hs : c.cached? path = some s)
    (ht : (c.apply step).cached? path = some t) : t = s := by
  have hbefore := content?_of_cached? hs
  have hafter := content?_of_cached? ht
  rcases slotAt_apply h.reflects.tidy hs step with hslot | hslot
  · rw [hslot, hbefore] at hafter
    exact (Option.some.inj hafter).symm
  · rw [hslot] at hafter
    nomatch hafter

/-- What is cached after a step and was not before has been stored in the step. -/
theorem stored_of_apply (h : Recorded e log c) {step : CacheStep} (hnone : c.cached? path = none)
    (hs : (c.apply step).cached? path = some s) :
    ∃ policy, .stored path policy s ∈ c.events step := by
  obtain ⟨policy, hstored, hkept⟩ := (h.apply step).cached?_iff.1 hs
  refine ⟨policy, (since_append hstored).resolve_right fun hbefore => ?_⟩
  have hheld : policy = .strong ∨ c.Holds s := by
    refine hkept.imp_right fun hlater => holds_apply h.coherent ?_ step hlater
    have hslot := (h.reflects.slots path policy s).2 (h.expr ▸ hbefore)
    have hknown : s ∈ c.known :=
      mem_known_of_content? (by rw [hslot, CachePolicy.content?_slot])
    exact h.coherent.fresh s hknown s .self
  have hcached := h.cached?_iff.2 ⟨policy, hbefore, hheld⟩
  rw [hnone] at hcached
  nomatch hcached

end Recorded

/-- After the steps, what is cached for a node is the lineage stored for it since its last eviction,
and since the expression was cloned if the clone does not share the node: while it was stored under
the strong policy, or is among the sources of something that a handle or a strong slot holds. -/
def KeptAsStored (shared : NodePath → Bool) (e : Expr) (policy : CachePolicy)
    (steps : List CacheStep) (path : NodePath) : Prop :=
  let log := (start e policy).history steps
  ∀ s, ((start e policy).run steps).cached? path = some s ↔
    ∃ under, StoredSince shared log path under s ∧
      (under = .strong ∨ ∃ t, ((∃ name, HeldSince log name t) ∨
        ∃ node, StoredSince shared log node .strong t) ∧ s.Within t)

end LineageCache

open LineageCache in
/-- Whatever is done to the cache of an expression, a lineage is cached exactly as long as it is
kept as stored.  A clone shares the expressions of clauses with their slots.  While a lineage is
cached every request for its node gives it and stores nothing; it is the same one after every step
that leaves one cached, and once it is gone there is none before another one is stored. -/
theorem cached_lifetime (e : Expr) (policy : CachePolicy) (steps : List CacheStep)
    (path : NodePath) :
    KeptAsStored (entersClause e) e policy steps path ∧
    (∀ s, ((start e policy).run steps).cached? path = some s →
      ((start e policy).run steps).request? path = some (s, (start e policy).run steps) ∧
      ((start e policy).run steps).events (.request path none) = []) ∧
    (∀ step s t, ((start e policy).run steps).cached? path = some s →
      (((start e policy).run steps).apply step).cached? path = some t → t = s) ∧
    (∀ step s, ((start e policy).run steps).cached? path = none →
      (((start e policy).run steps).apply step).cached? path = some s →
      ∃ under, .stored path under s ∈ ((start e policy).run steps).events step) := by
  have h : Recorded e ((start e policy).history steps) ((start e policy).run steps) :=
    (Recorded.start e policy).run steps
  refine ⟨fun s => ?_, fun s hs => h.request?_eq hs, fun step s t hs ht => h.eq_of_apply hs ht,
    fun step s hnone hs => h.stored_of_apply hnone hs⟩
  rw [h.cached?_iff]
  unfold Holds
  simp only [h.reflects.mem_roots_iff, h.expr]

open LineageCache in
/-- Under the weak policy the lineage of an operand is cached because a handle on the lineage of the
whole expression is kept. -/
theorem cached_lifetime_operand :
    let c := start (.binary .add (.var "a") (.var "b")) .weak
    let steps := [.request [] (some "h"), .evict [], .setPolicy .strong]
    HeldSince (c.history steps) "h" (.node 2 "(a + b)" [.known 0 "a", .known 1 "b"]) ∧
      (c.run steps).cached? [] = none ∧ (c.run steps).cached? [0] = some (.known 0 "a") ∧
      (c.run (steps ++ [.release "h"])).cached? [0] = none := by
  intro c steps
  have hheld : HeldSince (c.history steps) "h"
      (.node 2 "(a + b)" [.known 0 "a", .known 1 "b"]) := by
    refine ⟨(c.history steps).take 3, [.evicted []], rfl, fun x hx => ?_⟩
    rw [List.mem_singleton.1 hx]
    exact id
  have hstored : StoredSince (entersClause (.binary .add (.var "a") (.var "b")))
      (c.history steps) [0] .weak (.known 0 "a") := by
    have hlater : (c.history steps).drop 1 = [.stored [1] .weak (.known 1 "b"),
        .stored [] .weak (.node 2 "(a + b)" [.known 0 "a", .known 1 "b"]),
        .held "h" (.node 2 "(a + b)" [.known 0 "a", .known 1 "b"]), .evicted []] := rfl
    refine ⟨[], (c.history steps).drop 1, rfl, ?_⟩
    simp [hlater, CacheEvent.Clears]
  have hcached := ((cached_lifetime (.binary .add (.var "a") (.var "b")) .weak steps [0]).1 _).2
    ⟨.weak, hstored, .inr ⟨_, .inl ⟨"h", hheld⟩, .source List.mem_cons_self .self⟩⟩
  exact ⟨hheld, rfl, hcached, rfl⟩

open LineageCache in
/-- A lineage stored for the condition of a filter is there after cloning, though nothing was stored
for the condition since. -/
theorem cached_condition_cloned :
    ¬ KeptAsStored (fun _ => false) (.filter (.var "ds") (.constant (.boolean true))) .strong
      [.request [1] (some "h"), .clone] [1] := by
  intro h
  obtain ⟨under, hstored, -⟩ := (h (.known 0 "true")).1 rfl
  have hclears : CacheEvent.cloned.Clears (fun _ => false) [1] := rfl
  have hlog : StoredSince (fun _ => false)
      ([.stored [1] .strong (.known 0 "true"), .held "h" (.known 0 "true")] ++ [.cloned]) [1] under
      (.known 0 "true") := hstored
  nomatch (storedSince_concat_of_clears hclears).1 hlog

end DataCube
