import Progression.Evaluation
import Progression.Statement.Event
import Progression.Transducer

/-! Running statements. An assignment binds its variable; `out` and `print` add to the output, which
is kept in the order of the places where the statements begin. -/

namespace Progression

/-- Values by the locations of the statements that gave them, in ascending order. -/
abbrev Output := List (Location × Value)

namespace Output

/-- Adds a value at a location, in place of one that was there before. -/
def insert (location : Location) (value : Value) : Output → Output
  | [] => [(location, value)]
  | (other, present) :: rest =>
      if location < other then (location, value) :: (other, present) :: rest
      else if location = other then (location, value) :: rest
      else (other, present) :: insert location value rest

/-- The value at a location. -/
def find? (output : Output) (location : Location) : Option Value := output.lookup location

/-- The values as they are written, in order. -/
def rendered (output : Output) : List String := output.map fun (_, value) => value.render

end Output

/-- A machine between two statements. It keeps values and no handles on them; `Value.Store` is a store
of its own. -/
structure Machine where
  bindings : Bindings
  output : Output

namespace Machine

/-- The machine before the first statement. -/
def first : Machine := ⟨Bindings.empty, []⟩

/-- Runs a statement. The value of an assignment to a name without a variable is dropped. -/
def execute (config : Config) (machine : Machine) : Statement → Log × Machine
  | .assign _ target value =>
      let outcome := value.eval config machine.bindings
      let bindings := match target.id with
        | some id => outcome.bindings.bind id outcome.value
        | none => outcome.bindings
      (outcome.reports, { machine with bindings := bindings })
  | .out span value =>
      let outcome := value.eval config machine.bindings
      (outcome.reports, ⟨outcome.bindings, machine.output.insert span.start outcome.value⟩)
  | .print span text =>
      ([], { machine with output := machine.output.insert span.start (.text text) })

/-- Takes one event of a program: reports are passed on, statements run. -/
def step (config : Config) (machine : Machine) : Event → Log × Machine
  | .report d => ([d], machine)
  | .statement s => machine.execute config s

/-- Runs the events of a program from the given state on. -/
def run (config : Config) (machine : Machine) (events : List Event) : Log × Machine :=
  transduce (step config) machine events

end Machine

end Progression
