import Progression.Statement.Event
import Progression.Typing.Check
import Progression.Transducer

/-! Checking of programs. Names are resolved to variables and every expression is given a type.
Statements that pass are handed on with both filled in; the others are dropped. -/

namespace Progression

/-- The mark with the type of its expression. -/
def Mark.typed (mark : Mark) (type : Ty) : Mark := { mark with type := some type }

/-- The binding with the variable it declares. -/
def Binding.resolved (binding : Binding) (id : Nat) : Binding := { binding with id := some id }

/-- Checks an expression and gives its type and the expression with everything filled in.

Literals are numbers, and a name has the type of its variable. Operands and range bounds have to be
numbers. The lambda of `map` takes an element of the argument; that of `reduce` takes a value of
the base's type and an element, and has to give a value of the base's type. -/
def Expr.check (scope : Scope) : Expr → Check (Ty × Expr)
  | int mark value => pure (.number, int (mark.typed .number) value)
  | float mark value => pure (.number, float (mark.typed .number) value)
  | ref mark name _ => do
      let v ← Check.resolve scope name mark.span
      pure (v.type, ref (mark.typed v.type) name (some v.id))
  | binary mark op left right => do
      let (leftType, left) ← left.check scope
      let (rightType, right) ← right.check scope
      if leftType = .number ∧ rightType = .number then
        pure (.number, binary (mark.typed .number) op left right)
      else Check.reject (.operands op leftType rightType) mark.span
  | paren mark inner => do
      let (type, inner) ← inner.check scope
      pure (type, paren (mark.typed type) inner)
  | range mark lower upper => do
      let (lowerType, lower) ← lower.check scope
      let (upperType, upper) ← upper.check scope
      if lowerType ≠ .number then Check.reject (.bound .lower lowerType) lower.span
      else if upperType ≠ .number then Check.reject (.bound .upper upperType) upper.span
      else pure (.sequence .number, range (mark.typed (.sequence .number)) lower upper)
  | map mark argument param body => do
      let (argumentType, argument) ← argument.check scope
      match argumentType with
      | .number => Check.reject (.mapArgument argumentType) argument.span
      | .sequence element =>
          let id ← Check.declare param element
          let (bodyType, body) ← body.check (scope.enter.declare param.name id)
          pure (.sequence bodyType,
            map (mark.typed (.sequence bodyType)) argument (param.resolved id) body)
  | reduce mark sequence base accumulator element body => do
      let ((baseType, base), (sequenceType, sequence)) ←
        Check.both (base.check scope) (sequence.check scope)
      match sequenceType with
      | .number => Check.reject (.reduceArgument sequenceType) sequence.span
      | .sequence elementType =>
          let accumulatorId ← Check.declare accumulator baseType
          let inner := scope.enter.declare accumulator.name accumulatorId
          if inner.declares element.name then
            Check.reject (.alreadyDeclared element.name) element.span
          else
            let elementId ← Check.declare element elementType
            let (bodyType, body) ← body.check (inner.declare element.name elementId)
            if bodyType = baseType then
              pure (baseType,
                reduce (mark.typed baseType) sequence base (accumulator.resolved accumulatorId)
                  (element.resolved elementId) body)
            else Check.reject (.reduceBody baseType bodyType) body.span

/-- A checker between two statements: all variables so far, and the global scope. -/
structure Checker where
  declared : Array Variable
  globals : Scope

namespace Checker

/-- The checker before the first statement. -/
def first : Checker := ⟨#[], Scope.empty⟩

/-- Checks a statement and gives it with everything filled in, and the global scope after it. The
right side of an assignment is checked before its name is declared. -/
def checkStatement (globals : Scope) : Statement → Check (Statement × Scope)
  | .assign span target value => do
      let (type, value) ← value.check globals
      if globals.declares target.name then
        Check.reject (.alreadyDeclared target.name) target.span
      else
        let id ← Check.declare target type
        pure (.assign span (target.resolved id) value, globals.declare target.name id)
  | .out span value => do
      let (_, value) ← value.check globals
      pure (.out span value, globals)
  | .print span text => pure (.print span text, globals)

/-- Takes one event of a program. A statement is replaced by the reports about it, followed by the
checked statement if it passes. -/
def step (checker : Checker) : Event → List Event × Checker
  | .report d => ([.report d], checker)
  | .statement s =>
      let verdict := checkStatement checker.globals s checker.declared
      match verdict.result with
      | some (checked, globals) =>
          (verdict.reports.map .report ++ [.statement checked], ⟨verdict.declared, globals⟩)
      | none => (verdict.reports.map .report, ⟨verdict.declared, checker.globals⟩)

/-- Checks the events of a program from the given state on. -/
def run (checker : Checker) (events : List Event) : List Event × Checker :=
  transduce step checker events

end Checker

end Progression
