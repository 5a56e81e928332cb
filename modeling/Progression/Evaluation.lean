import Progression.Eval
import Progression.Slice
import Progression.Value.Arithmetic

/-! Evaluation of expressions. An expression always has a value; if something fails, that is
reported and the value is the error value, which every enclosing expression passes on. The operators
on sequences cut their work into slices. Every slice is worked on from a copy of the bindings, and
values and reports are put together in the order of the slices, so nothing depends on when a slice
is worked on. -/

namespace Progression

/-- How expressions are evaluated: the greatest number of slices, which is not zero, and for which
numbers of elements there is room. -/
structure Config where
  workers : Nat
  holds : Nat → Bool
  workers_pos : 0 < workers

namespace Config

/-- The greatest number of elements that a sequence can have. -/
def capacity : Nat := UInt32.size

/-- The configuration with the given number of workers, and with one worker for zero. -/
def ofWorkers (workers : Nat) : Config where
  workers := max workers 1
  holds n := n ≤ capacity
  workers_pos := by omega

end Config

namespace Eval

/-- The elements of a range that fall into a slice. -/
def rangeSlice (lower : Int64) (slice : Slice) : List Value :=
  match Integer.element? lower slice.start with
  | some first =>
      (List.range slice.size).map fun (k : Nat) => .int (Int64.ofInt (first.toInt + k))
  | none => List.replicate slice.size (.int lower)

/-- The integers from `lower` to `upper`, both included, if there is room for them. -/
def ints (config : Config) (span : Span) (lower upper : Int64) : Eval Value :=
  if upper < lower then fail .invertedRange span
  else
    let size := Integer.rangeSize lower upper
    if Integer.isLength size && config.holds size then
      give (.sequence ((slices size config.workers).flatMap (rangeSlice lower)))
    else fail (.rangeTooLarge size) span

/-- Reports a bound that is no int. -/
def checkBound (which : Bound) (value : Value) (span : Span) : Eval Unit :=
  match value with
  | .int _ => give ()
  | other => report (.boundNotInt which other.kind) span

/-- The range with the given bounds. If a bound has failed, nothing more is said about the other. -/
def range (config : Config) (span lowerSpan upperSpan : Span) : Value → Value → Eval Value
  | .error, _ => give .error
  | _, .error => give .error
  | .int lower, .int upper => ints config span lower upper
  | lower, upper => do
      checkBound .lower lower lowerSpan
      checkBound .upper upper upperSpan
      give .error

/-- The body of a lambda for one element. -/
def applyTo (param : Nat) (body : Eval Value) (element : Value) : Eval Value := do
  bind param element
  body

/-- The body of a lambda for every element. The whole fails if it fails for one of them. -/
def map (config : Config) (param : Nat) (body : Eval Value) (elements : List Value) :
    Eval Value := do
  let parts ← fork (fun (_, slice) => each (applyTo param body) slice)
    (split elements config.workers)
  let values := parts.flatten
  give (if values.any Value.isError then .error else .sequence values)

/-- One step of a fold: the body of a lambda with both parameters bound, unless one has failed. -/
def combine (accumulator element : Nat) (body : Eval Value) (a b : Value) : Eval Value :=
  if a.isError || b.isError then give .error
  else do
    bind accumulator a
    bind element b
    body

/-- Folds a slice from its first value on. -/
def foldSlice (step : Value → Value → Eval Value) : List Value → Eval Value
  | [] => give .error
  | first :: rest => fold step first rest

/-- Folds every slice by itself and then the results of the slices, beginning with `base`. The
result is that of one fold over all elements if the body is associative, and else it can depend on
the number of slices. -/
def reduce (config : Config) (accumulator element : Nat) (body : Eval Value) (base : Value)
    (elements : List Value) : Eval Value := do
  let step := combine accumulator element body
  let parts ← fork (fun (_, slice) => foldSlice step slice) (split elements config.workers)
  let result ← fold step base parts
  release accumulator
  release element
  give result

end Eval

/-- Evaluates an expression. -/
def Expr.eval (config : Config) : Expr → Eval Value
  | int _ value => pure (.int value)
  | float _ value => pure (.float value)
  | ref _ _ target => Eval.read target
  | binary mark op left right => do
      let a ← left.eval config
      let b ← right.eval config
      Eval.settle mark.span (op.apply a b)
  | paren _ inner => inner.eval config
  | range mark lower upper => do
      let a ← lower.eval config
      let b ← upper.eval config
      Eval.range config mark.span lower.span upper.span a b
  | map _ argument param body => do
      match ← argument.eval config, param.id with
      | .sequence elements, some id => Eval.map config id (body.eval config) elements
      | _, _ => pure .error
  | reduce _ sequence base accumulator element body => do
      let start ← base.eval config
      match ← sequence.eval config, accumulator.id, element.id with
      | .sequence elements, some a, some e =>
          if start.isError then pure .error
          else Eval.reduce config a e (body.eval config) start elements
      | _, _, _ => pure .error

end Progression
