import DataCube.Name

/-!
# Bindings

Named things in the order in which their names were first bound. Binding a name again replaces the
thing in its place.
-/

namespace DataCube

/-- Things by name, in order. -/
structure Bindings (α : Type) where
  entries : List (String × α)

namespace Bindings

variable {α : Type}

/-- No names. -/
def empty : Bindings α := ⟨[]⟩

/-- Replaces what is bound to a name in its place, or appends. -/
def insertIn (name : String) (x : α) : List (String × α) → List (String × α)
  | [] => [(name, x)]
  | e :: rest => if e.1 = name then (name, x) :: rest else e :: insertIn name x rest

/-- Binds a name. -/
def insert (b : Bindings α) (name : String) (x : α) : Bindings α := ⟨insertIn name x b.entries⟩

/-- The thing bound to exactly this name. -/
def get? (b : Bindings α) (name : String) : Option α :=
  (b.entries.find? fun e => e.1 = name).map Prod.snd

/-- The thing that a name refers to: the one bound to exactly this name, quotes included, or else
the one found under the quoting rule. -/
def find? (b : Bindings α) (name : String) : Option α :=
  (b.get? name).or (((NamePattern.ofName name).find? Prod.fst b.entries).map Prod.snd)

/-- The things, in order. -/
def values (b : Bindings α) : List α := b.entries.map Prod.snd

/-- The number of names. -/
def size (b : Bindings α) : Nat := b.entries.length

@[simp] theorem get?_empty (name : String) : (empty : Bindings α).get? name = none := rfl

/-- A name stands for what was bound to it last, and binding it changes no other name. -/
theorem get?_insert (b : Bindings α) (name other : String) (x : α) :
    (b.insert name x).get? other = if name = other then some x else b.get? other := by
  obtain ⟨entries⟩ := b
  simp only [insert, get?]
  induction entries with
  | nil => by_cases h : name = other <;> simp [insertIn, h]
  | cons e rest ih =>
    by_cases he : e.1 = name
    · rw [insertIn, if_pos he]
      by_cases h : name = other <;> simp [he, h]
    · rw [insertIn, if_neg he, List.find?_cons, List.find?_cons]
      by_cases ho : e.1 = other
      · have h : name ≠ other := fun h => he (ho.trans h.symm)
        simp [ho, h]
      · simpa [ho] using ih

/-- Among the names of a kind, binding a name is seen if it is of that kind. -/
theorem filter_insertIn (p : String → Bool) (name : String) (x : α) (es : List (String × α)) :
    (insertIn name x es).filter (fun e => p e.1) =
      if p name then insertIn name x (es.filter fun e => p e.1) else es.filter fun e => p e.1 := by
  induction es with
  | nil => by_cases h : p name <;> simp [insertIn, h]
  | cons e es ih =>
    by_cases he : e.1 = name
    · by_cases h : p name <;> simp [insertIn, he, h]
    · by_cases h : p name <;> by_cases hp : p e.1 <;> simp [insertIn, he, h, hp] at ih ⊢ <;>
        exact ih

end Bindings

end DataCube
