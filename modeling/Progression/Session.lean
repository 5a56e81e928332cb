import Progression.Machine
import Progression.Statement.Parser
import Progression.Typing.Checker

/-! Whole programs. A session is a checker and a machine that several program texts are fed to one
after the other; variables and output stay from one text to the next. -/

namespace Progression

/-- A checker and the machine that runs what passes it. -/
structure Session where
  checker : Checker
  machine : Machine

/-- What can be seen after a statement was read, checked and, if it passed, run. Reports are counted
from the beginning of the text, variables and output entries from the beginning of the session; the
value is what the output holds at the place of the statement. -/
structure Snapshot where
  span : Span
  reports : Nat
  declared : Nat
  outputs : Nat
  value : Option String

namespace Session

/-- The session before the first text. -/
def first : Session := ⟨Checker.first, Machine.first⟩

/-- Takes one event of a program: checks it and runs what passes. -/
def step (config : Config) (session : Session) (event : Event) : Log × Session :=
  let (checked, checker) := session.checker.step event
  let (log, machine) := session.machine.run config checked
  (log, ⟨checker, machine⟩)

/-- Feeds a program text. -/
def feed (config : Config) (session : Session) (source : String) : Log × Session :=
  transduce (step config) session (parse source)

/-- The snapshot after a statement; `reports` were given so far. -/
def snapshot (session : Session) (reports : Nat) (statement : Statement) : Snapshot where
  span := statement.span
  reports := reports
  declared := session.checker.declared.size
  outputs := session.machine.output.length
  value := (session.machine.output.find? statement.span.start).map Value.render

/-- Takes one event and gives a snapshot if it is a statement. The state counts the reports. -/
def stepTraced (config : Config) (state : Nat × Session) (event : Event) :
    List Snapshot × Nat × Session :=
  let (log, session) := state.2.step config event
  let count := state.1 + log.length
  match event with
  | .report _ => ([], count, session)
  | .statement s => ([session.snapshot count s], count, session)

/-- The snapshots that feeding a program text gives. -/
def trace (config : Config) (session : Session) (source : String) : List Snapshot :=
  (transduce (stepTraced config) (0, session) (parse source)).1

end Session

/-- What running a program gives. -/
structure Evaluation where
  output : Output
  log : Log

/-- Checks and runs a program. -/
def evaluate (config : Config) (source : String) : Evaluation :=
  let (log, session) := Session.first.feed config source
  ⟨session.machine.output, log⟩

/-- Runs a program without checking it. No name has a variable then. -/
def evaluateUnchecked (config : Config) (source : String) : Evaluation :=
  let (log, machine) := Machine.first.run config (parse source)
  ⟨machine.output, log⟩

/-- Checks a program. -/
def typeCheck (source : String) : List Event × Checker := Checker.first.run (parse source)

end Progression
