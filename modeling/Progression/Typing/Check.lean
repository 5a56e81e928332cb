import Progression.Scope

/-! Computations of the checker. A computation declares variables, reports what it finds wrong, and
gives a result unless the part that it checks is rejected. Reports and variables of a rejected part
are kept. -/

namespace Progression

/-- A declared variable. -/
structure Variable where
  id : Nat
  name : String
  type : Ty
deriving DecidableEq

/-- How a check ends: its result if it accepts, what it reports, and all variables declared so
far. -/
structure Verdict (α : Type) where
  result : Option α
  reports : Log
  declared : Array Variable

/-- A check, given the variables that are declared before it. -/
def Check (α : Type) : Type := Array Variable → Verdict α

namespace Check

variable {α β : Type}

/-- A check that accepts at once. -/
def accept (a : α) : Check α := fun declared => ⟨some a, [], declared⟩

/-- A check that goes on with the result of another; what was rejected stays rejected. -/
def andThen (check : Check α) (next : α → Check β) : Check β := fun declared =>
  let verdict := check declared
  match verdict.result with
  | none => ⟨none, verdict.reports, verdict.declared⟩
  | some a =>
      let final := next a verdict.declared
      ⟨final.result, verdict.reports ++ final.reports, final.declared⟩

instance : Monad Check where
  pure := accept
  bind := andThen

/-- Rejects what is being checked. -/
def reject (cause : TypeError) (span : Span) : Check α := fun declared =>
  ⟨none, [⟨.type cause, span, none⟩], declared⟩

/-- Goes through both checks, even if the first rejects; both have to accept. -/
def both (first : Check α) (second : Check β) : Check (α × β) := fun declared =>
  let left := first declared
  let right := second left.declared
  ⟨left.result.bind fun a => right.result.map fun b => (a, b), left.reports ++ right.reports,
    right.declared⟩

/-- Declares a new variable for a binding. -/
def declare (binding : Binding) (type : Ty) : Check Nat := fun declared =>
  ⟨some declared.size, [], declared.push ⟨declared.size, binding.name, type⟩⟩

/-- The variable that a name stands for. -/
def resolve (scope : Scope) (name : String) (span : Span) : Check Variable := fun declared =>
  match scope.lookup name >>= (declared[·]?) with
  | some v => accept v declared
  | none => reject (.undeclared name) span declared

end Check

end Progression
