import Progression.Expr
import Progression.Value

/-! What the variables are bound to. Variables are addressed by their number; one that was never
bound, or was released, has no value. -/

namespace Progression

/-- A value or none for every variable, by its number. Variables beyond the end have none. -/
structure Bindings where
  slots : Array (Option Value)

namespace Bindings

/-- No variable is bound. -/
def empty : Bindings := ⟨#[]⟩

/-- The value that a variable is bound to. -/
def lookup (bindings : Bindings) (id : Nat) : Option Value := bindings.slots[id]?.join

/-- Binds a variable, in place of what it was bound to before. -/
def bind (bindings : Bindings) (id : Nat) (value : Value) : Bindings :=
  let missing := id + 1 - bindings.slots.size
  ⟨(bindings.slots ++ Array.replicate missing none).setIfInBounds id (some value)⟩

/-- Releases a variable. -/
def release (bindings : Bindings) (id : Nat) : Bindings :=
  ⟨bindings.slots.setIfInBounds id none⟩

theorem lookup_bind (bindings : Bindings) (id other : Nat) (value : Value) :
    (bindings.bind id value).lookup other =
      if other = id then some value else bindings.lookup other := by
  by_cases h : other = id
  · subst h
    have hSize : other < bindings.slots.size + (other + 1 - bindings.slots.size) := by omega
    simp [bind, lookup, hSize]
  · have hne : id ≠ other := fun he => h he.symm
    by_cases hIn : other < bindings.slots.size
    · simp [bind, lookup, h, hne, Array.getElem?_append, hIn]
    · by_cases hNew : other - bindings.slots.size < id + 1 - bindings.slots.size
      · simp [bind, lookup, h, hne, Array.getElem?_append, hIn, hNew]
      · simp [bind, lookup, h, hne, Array.getElem?_append, hIn, hNew]

theorem lookup_release (bindings : Bindings) (id other : Nat) :
    (bindings.release id).lookup other = if other = id then none else bindings.lookup other := by
  by_cases h : other = id
  · subst h
    by_cases hIn : other < bindings.slots.size
    · simp [release, lookup, hIn]
    · simp [release, lookup, hIn]
  · have hne : id ≠ other := fun he => h he.symm
    simp [release, lookup, h, hne]

end Bindings

end Progression
