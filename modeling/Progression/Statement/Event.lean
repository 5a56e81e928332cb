import Progression.Diagnostic
import Progression.Expr

/-! A program as it is being read: reports and statements in the order in which they come up. A
report about a part of the text stands before every statement that is complete only once that part
has been looked at. -/

namespace Progression

/-- A report, or a statement that is handed on. -/
inductive Event where
  | report (d : Diagnostic)
  | statement (s : Statement)
deriving DecidableEq

namespace Event

/-- The diagnostic, if the event is a report. -/
def report? : Event → Option Diagnostic
  | report d => some d
  | statement _ => none

/-- The statement, unless the event is a report. -/
def statement? : Event → Option Statement
  | report _ => none
  | statement s => some s

end Event

/-- The reports among the events. -/
def reports (events : List Event) : Log := events.filterMap Event.report?

/-- The statements among the events. -/
def statements (events : List Event) : List Statement := events.filterMap Event.statement?

@[simp] theorem reports_append (first second : List Event) :
    reports (first ++ second) = reports first ++ reports second := List.filterMap_append

@[simp] theorem statements_append (first second : List Event) :
    statements (first ++ second) = statements first ++ statements second := List.filterMap_append

end Progression
