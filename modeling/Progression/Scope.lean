import Progression.Expr

/-! Scopes: a stack of frames, each of which maps names to variables. The innermost frame that
declares a name decides what it means, and within a frame the latest declaration. -/

namespace Progression

/-- The declarations of one frame, the latest first. -/
abbrev Declarations := List (String × Nat)

/-- The innermost frame and the frames around it, from the inside out. The last is the global
one. -/
structure Scope where
  current : Declarations
  outer : List Declarations
deriving DecidableEq

namespace Scope

/-- The global frame alone, without declarations. -/
def empty : Scope := ⟨[], []⟩

/-- How many frames stand around the innermost. -/
def depth (scope : Scope) : Nat := scope.outer.length

/-- Enters a new frame. -/
def enter (scope : Scope) : Scope := ⟨[], scope.current :: scope.outer⟩

/-- Leaves the innermost frame; the global frame cannot be left. -/
def leave? (scope : Scope) : Option Scope :=
  match scope.outer with
  | [] => none
  | frame :: frames => some ⟨frame, frames⟩

/-- Declares a name in the innermost frame. -/
def declare (scope : Scope) (name : String) (id : Nat) : Scope :=
  { scope with current := (name, id) :: scope.current }

/-- Whether the innermost frame declares the name. -/
def declares (scope : Scope) (name : String) : Bool := (scope.current.lookup name).isSome

/-- The variable that the name stands for. -/
def lookup (scope : Scope) (name : String) : Option Nat :=
  (scope.current :: scope.outer).findSome? (List.lookup name)

@[simp] theorem leave?_enter (scope : Scope) : scope.enter.leave? = some scope := rfl

@[simp] theorem lookup_enter (scope : Scope) (name : String) :
    scope.enter.lookup name = scope.lookup name := rfl

theorem lookup_declare (scope : Scope) (name other : String) (id : Nat) :
    (scope.declare name id).lookup other =
      if other = name then some id else scope.lookup other := by
  by_cases h : other = name
  · simp [lookup, declare, h]
  · simp [lookup, declare, List.findSome?_cons, List.lookup_cons, h,
      beq_eq_false_iff_ne.mpr h]

end Scope

end Progression
