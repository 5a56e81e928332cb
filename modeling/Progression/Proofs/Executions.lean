import Progression.Proofs.Pipeline
import Progression.Proofs.Typing

/-! The statements that a session runs, each with the session just before it, and all that one event
can do to a session. -/

namespace Progression

/-- A statement that has passed the checker, and the session before it. -/
structure Execution where
  session : Session
  statement : Statement

/-- The expression whose value the statement puts out or assigns. -/
def Statement.value? : Statement → Option Expr
  | assign _ _ value => some value
  | out _ value => some value
  | print _ _ => none

/-- The name that the statement declares. -/
def Statement.target? : Statement → Option Binding
  | assign _ target _ => some target
  | out _ _ => none
  | print _ _ => none

namespace Execution

/-- What running the statement reports. -/
def reports (config : Config) (x : Execution) : Log :=
  (x.session.machine.execute config x.statement).1

end Execution

namespace Session

/-- Takes one event like `step` and gives the statement that is run, if one is. -/
def stepExecuted (config : Config) (session : Session) (event : Event) :
    List Execution × Session :=
  ((statements (session.checker.step event).1).map (Execution.mk session),
    (session.step config event).2)

/-- The session after program texts were fed to it one after the other. -/
def after (config : Config) (sources : List String) : Session :=
  sources.foldl (fun session source => (session.feed config source).2) Session.first

theorem transduce_stepExecuted (config : Config) (session : Session) (events : List Event) :
    (transduce (stepExecuted config) session events).2 =
      (transduce (step config) session events).2 := by
  induction events generalizing session with
  | nil => rfl
  | cons event events ih => exact ih (session.step config event).2

end Session

/-- All statements that are run while program texts are fed one after the other. -/
def executions (config : Config) (sources : List String) : List Execution :=
  (transduce (Session.stepExecuted config) Session.first (sources.flatMap parse)).1

/-- The statements are those of the session that the texts are fed to. -/
theorem Session.after_eq (config : Config) (sources : List String) :
    Session.after config sources =
      (transduce (stepExecuted config) Session.first (sources.flatMap parse)).2 := by
  rw [transduce_stepExecuted, Session.after]
  generalize Session.first = session
  induction sources generalizing session with
  | nil => rfl
  | cons source sources ih =>
      rw [List.foldl_cons, List.flatMap_cons, transduce_append, ih]
      rfl

/-- All that passing the checker can mean: the checked statement and the checker after it. -/
inductive Checker.Passed (checker : Checker) : Statement → Checker → Prop where
  | assign {span : Span} {target : Binding} {value checked : Expr} {type : Ty}
      {final : Array Variable}
      (hValue : (value.check checker.globals).Accepts checker.declared (type, checked) final)
      (hNew : checker.globals.declares target.name = false) :
      Passed checker (.assign span (target.resolved final.size) checked)
        ⟨final.push ⟨final.size, target.name, type⟩,
          checker.globals.declare target.name final.size⟩
  | out {span : Span} {value checked : Expr} {type : Ty} {final : Array Variable}
      (hValue : (value.check checker.globals).Accepts checker.declared (type, checked) final) :
      Passed checker (.out span checked) ⟨final, checker.globals⟩
  | print {span : Span} {text : String} : Passed checker (.print span text) checker

open Check in
theorem Checker.passed_of_accepts {checker : Checker} {s checked : Statement} {globals : Scope}
    {final : Array Variable}
    (h : (checkStatement checker.globals s).Accepts checker.declared (checked, globals) final) :
    checker.Passed checked ⟨final, globals⟩ := by
  cases s with
  | assign span target value =>
      obtain ⟨⟨type, e⟩, middle, hValue, hRest⟩ := accepts_bind.mp h
      dsimp only at hRest
      split at hRest
      · exact absurd hRest not_accepts_reject
      · next hDeclares =>
          obtain ⟨id, last, hDeclare, hEnd⟩ := accepts_bind.mp hRest
          obtain ⟨rfl, rfl⟩ := accepts_declare.mp hDeclare
          obtain ⟨hPair, rfl⟩ := accepts_pure.mp hEnd
          cases hPair
          exact .assign hValue (Bool.eq_false_iff.mpr hDeclares)
  | out span value =>
      obtain ⟨⟨type, e⟩, middle, hValue, hEnd⟩ := accepts_bind.mp h
      obtain ⟨hPair, rfl⟩ := accepts_pure.mp hEnd
      cases hPair
      exact .out hValue
  | print span text =>
      obtain ⟨hPair, rfl⟩ := accepts_pure.mp h
      cases hPair
      exact .print

/-- The expression of a statement that has passed is one that the checker accepted. -/
theorem Checker.Passed.accepts {checker next : Checker} {s : Statement} {e : Expr}
    (h : checker.Passed s next) (hValue : s.value? = some e) :
    ∃ (value : Expr) (type : Ty) (final : Array Variable),
      (value.check checker.globals).Accepts checker.declared (type, e) final := by
  cases h with
  | assign hAccepts _ | out hAccepts =>
      cases hValue
      exact ⟨_, _, _, hAccepts⟩
  | print => cases hValue

/-- Checking a statement has every property that is passed on from the parts of a check. -/
theorem Checker.checkStatement_closed {property : (α : Type) → Check α → Prop}
    (h : Check.Closed property) (globals : Scope) (s : Statement) :
    property _ (checkStatement globals s) := by
  cases s with
  | assign span target value =>
      refine h.bind (value.check_closed h globals) fun pair => ?_
      dsimp only
      split
      · exact h.reject _ _
      · exact h.bind (h.declare _ _) fun _ => h.pure _
  | out span value => exact h.bind (value.check_closed h globals) fun _ => h.pure _
  | print span text => exact h.pure _

theorem Checker.checkStatement_grows (globals : Scope) (s : Statement) :
    (checkStatement globals s).Grows := checkStatement_closed Check.grows_closed globals s

@[simp] theorem statements_reports (log : Log) : statements (log.map .report) = [] := by
  simp [statements, List.filterMap_map, Function.comp_def, Event.statement?]

theorem reports_map_report (log : Log) : reports (log.map .report) = log := by
  simp [reports, List.filterMap_map, Function.comp_def, Event.report?]

/-- All that an event can make the checker hand on: nothing, with at most new variables, or one
statement that passes. -/
inductive Checker.Hands (checker : Checker) : List Statement → Checker → Prop where
  | nothing (more : Array Variable) :
      Hands checker [] ⟨checker.declared ++ more, checker.globals⟩
  | passed {s : Statement} {next : Checker} (h : checker.Passed s next) : Hands checker [s] next

theorem Checker.hands_step (checker : Checker) (event : Event) :
    checker.Hands (statements (checker.step event).1) (checker.step event).2 := by
  cases event with
  | report d =>
      have hNothing : checker.Hands [] ⟨checker.declared ++ #[], checker.globals⟩ := .nothing #[]
      rw [Array.append_empty] at hNothing
      exact hNothing
  | statement s =>
      simp only [step]
      cases hResult : (checkStatement checker.globals s checker.declared).result with
      | none =>
          obtain ⟨more, hMore⟩ := checkStatement_grows checker.globals s checker.declared
          rw [statements_reports, hMore]
          exact .nothing more
      | some pair =>
          obtain ⟨checked, globals⟩ := pair
          rw [statements_append, statements_reports]
          exact .passed (passed_of_accepts ⟨hResult, rfl⟩)

/-- Running events changes a machine as running their statements does. -/
theorem Machine.run_statements (config : Config) (machine : Machine) (events : List Event) :
    (machine.run config events).2 =
      (statements events).foldl (fun machine s => (machine.execute config s).2) machine := by
  induction events generalizing machine with
  | nil => rfl
  | cons event events ih =>
      cases event with
      | report d => exact ih machine
      | statement s => exact ih (machine.execute config s).2

/-- All that one event can do to a session: a report passes through, a rejected statement leaves at
most new variables behind, and a statement that passes is run. -/
inductive Session.Takes (config : Config) (session : Session) : List Execution → Session → Prop where
  | report : Takes config session [] session
  | rejected (more : Array Variable) :
      Takes config session []
        ⟨⟨session.checker.declared ++ more, session.checker.globals⟩, session.machine⟩
  | passed {checked : Statement} {checker : Checker} (h : session.checker.Passed checked checker) :
      Takes config session [⟨session, checked⟩]
        ⟨checker, (session.machine.execute config checked).2⟩

theorem Session.takes_step (config : Config) (session : Session) (event : Event) :
    session.Takes config (session.stepExecuted config event).1
      (session.stepExecuted config event).2 := by
  cases event with
  | report d => exact .report
  | statement s =>
      have hHands := session.checker.hands_step (.statement s)
      have hMachine := Machine.run_statements config session.machine
        (session.checker.step (.statement s)).1
      simp only [stepExecuted, step]
      rw [hMachine]
      generalize statements (session.checker.step (.statement s)).1 = handed at hHands ⊢
      generalize (session.checker.step (.statement s)).2 = next at hHands ⊢
      cases hHands with
      | nothing more => exact .rejected more
      | passed hPassed => exact .passed hPassed

theorem Session.Takes.length_le {config : Config} {session next : Session}
    {executed : List Execution} (h : session.Takes config executed next) : executed.length ≤ 1 := by
  cases h <;> simp

theorem Session.Takes.passed_of_singleton {config : Config} {session next : Session} {x : Execution}
    (h : session.Takes config [x] next) :
    session = x.session ∧ ∃ checker, x.session.checker.Passed x.statement checker := by
  cases h with
  | passed hPassed => exact ⟨rfl, _, hPassed⟩

/-- A statement is run in the session that the events before it have led to. -/
theorem executions_split {config : Config} {sources : List String} {before after : List Execution}
    {x : Execution} (h : executions config sources = before ++ x :: after) :
    ∃ events, (transduce (Session.stepExecuted config) Session.first events).1 = before ∧
      (transduce (Session.stepExecuted config) Session.first events).2 = x.session ∧
      ∃ checker, x.session.checker.Passed x.statement checker := by
  obtain ⟨events, event, hBefore, hLast⟩ := transduce_split
    (fun session event => (session.takes_step config event).length_le) h
  have hTakes := Session.takes_step config
    (transduce (Session.stepExecuted config) Session.first events).2 event
  rw [hLast] at hTakes
  exact ⟨events, hBefore, hTakes.passed_of_singleton⟩

end Progression
