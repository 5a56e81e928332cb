import Progression.Proofs.Executions
import Progression.Proofs.Relocation

/-! Checking and running a program whose locations have been moved. Neither looks at a location
except to report it or to file a value under it. So the same statements pass, with the same variables,
and the same values come out; all reports and output entries are moved. -/

namespace Progression

namespace Check

variable {f : Location → Location} {α β γ δ : Type}

/-- The check with its result replaced and its reports at the moved locations. -/
def moved (f : Location → Location) (g : α → β) (check : Check α) : Check β := fun declared =>
  let verdict := check declared
  ⟨verdict.result.map g, verdict.reports.map (Diagnostic.relocate f), verdict.declared⟩

theorem moved_bind {first : Check α} {next : α → Check β} {g : α → γ} {h : β → δ}
    {other : γ → Check δ} (hNext : ∀ a, other (g a) = (next a).moved f h) :
    first.moved f g >>= other = (first >>= next).moved f h := by
  funext declared
  simp only [bind, andThen, moved]
  cases (first declared).result with
  | none => rfl
  | some a => simp only [Option.map_some, hNext, moved, List.map_append]

theorem moved_both (g : α → γ) (h : β → δ) (first : Check α) (second : Check β) :
    both (first.moved f g) (second.moved f h) = (both first second).moved f (Prod.map g h) := by
  funext declared
  simp only [both, moved, List.map_append]
  cases (first declared).result with
  | none => rfl
  | some a => cases (second (first declared).declared).result <;> rfl

theorem moved_ite {condition : Prop} {decided again : Decidable condition} {g : α → β}
    {first second : Check α} {one two : Check β} (hFirst : one = first.moved f g)
    (hSecond : two = second.moved f g) :
    @ite _ condition decided one two = (@ite _ condition again first second).moved f g := by
  by_cases h : condition
  · rw [if_pos h, if_pos h, hFirst]
  · rw [if_neg h, if_neg h, hSecond]

theorem declare_relocate (binding : Binding) (type : Ty) :
    declare (binding.relocate f) type = (declare binding type).moved f id := rfl

theorem resolve_relocate (scope : Scope) (name : String) (span : Span) :
    resolve scope name (span.relocate f) = (resolve scope name span).moved f id := by
  funext declared
  simp only [resolve, moved]
  cases scope.lookup name >>= (declared[·]?) <;> rfl

end Check

variable {f : Location → Location}

open Check in
theorem Expr.check_relocate (e : Expr) (scope : Scope) :
    (e.relocate f).check scope = (e.check scope).moved f (Prod.map id (Expr.relocate f)) := by
  induction e generalizing scope with
  | int mark value => rfl
  | float mark value => rfl
  | ref mark name target =>
      rw [relocate, check, check, Mark.relocate, resolve_relocate]
      exact moved_bind fun v => rfl
  | binary mark op left right ihLeft ihRight =>
      simp only [relocate, check, ihLeft, ihRight]
      refine moved_bind fun typedLeft => moved_bind fun typedRight => ?_
      exact moved_ite rfl rfl
  | paren mark inner ih =>
      rw [relocate, check, check, ih]
      exact moved_bind fun _ => rfl
  | range mark lower upper ihLower ihUpper =>
      simp only [relocate, check, ihLower, ihUpper]
      refine moved_bind fun typedLower => moved_bind fun typedUpper => ?_
      dsimp only [Prod.map, id]
      rw [span_relocate, span_relocate]
      exact moved_ite rfl (moved_ite rfl rfl)
  | map mark argument param body ihArgument ihBody =>
      simp only [relocate, check, ihArgument, ihBody, declare_relocate]
      apply moved_bind
      rintro ⟨argumentType, argument⟩
      cases argumentType with
      | number =>
          dsimp only [Prod.map, id]
          rw [span_relocate]
          rfl
      | sequence element => exact moved_bind fun id => moved_bind fun pair => rfl
  | reduce mark sequence base accumulator element body ihSequence ihBase ihBody =>
      simp only [relocate, check, ihSequence, ihBase, ihBody, declare_relocate, moved_both]
      apply moved_bind
      rintro ⟨⟨baseType, base⟩, ⟨sequenceType, sequence⟩⟩
      cases sequenceType with
      | number =>
          dsimp only [Prod.map, id]
          rw [span_relocate]
          rfl
      | sequence elementType =>
          refine moved_bind fun accumulatorId => moved_ite rfl ?_
          refine moved_bind fun elementId => moved_bind fun typedBody => moved_ite rfl ?_
          dsimp only [Prod.map, id]
          rw [span_relocate]
          rfl

namespace Checker

open Check

theorem checkStatement_relocate (globals : Scope) (s : Statement) :
    checkStatement globals (s.relocate f) =
      (checkStatement globals s).moved f (Prod.map (Statement.relocate f) id) := by
  cases s with
  | assign span target value =>
      simp only [Statement.relocate, checkStatement, Expr.check_relocate, declare_relocate]
      refine moved_bind fun typed => ?_
      exact moved_ite rfl (moved_bind fun id => rfl)
  | out span value =>
      simp only [Statement.relocate, checkStatement, Expr.check_relocate]
      exact moved_bind fun _ => rfl
  | print span text => rfl

/-- The checker hands on the same at the moved locations, and itself stays the same. -/
theorem step_relocate (checker : Checker) (event : Event) :
    checker.step (event.relocate f) =
      Prod.map (List.map (Event.relocate f)) id (checker.step event) := by
  cases event with
  | report d => rfl
  | statement s =>
      simp only [Event.relocate, step, checkStatement_relocate, moved]
      cases (checkStatement checker.globals s checker.declared).result with
      | none => simp [Event.relocate]
      | some pair => simp [Event.relocate]

end Checker

namespace Eval

variable {α β : Type} (k : Diagnostic → Log)

/-- The computation with every report replaced by others. -/
def reworded (computation : Eval α) : Eval α := fun bindings =>
  let outcome := computation bindings
  ⟨outcome.value, outcome.reports.flatMap k, outcome.bindings⟩

theorem reworded_bind (first : Eval α) (next : α → Eval β) :
    (first >>= next).reworded k = first.reworded k >>= fun a => (next a).reworded k := by
  funext bindings
  simp only [reworded, bind_apply, List.flatMap_append]

theorem reworded_each (task : α → Eval β) (items : List α) :
    (each task items).reworded k = each (fun item => (task item).reworded k) items := by
  funext bindings
  induction items generalizing bindings with
  | nil => rfl
  | cons item items ih =>
      have hRest := ih (task item bindings).bindings
      rw [reworded] at hRest
      simp only [reworded, each_cons, List.flatMap_append]
      rw [← hRest]

theorem reworded_fold (step : β → α → Eval β) (start : β) (items : List α) :
    (fold step start items).reworded k =
      fold (fun value item => (step value item).reworded k) start items := by
  funext bindings
  induction items generalizing start bindings with
  | nil => rfl
  | cons item items ih =>
      have hRest := ih (step start item bindings).value (step start item bindings).bindings
      rw [reworded] at hRest
      simp only [reworded, fold_cons, List.flatMap_append]
      rw [← hRest]

theorem reworded_fork (task : α → Eval β) (items : List α) :
    (fork task items).reworded k = fork (fun item => (task item).reworded k) items := by
  funext bindings
  simp only [reworded, fork, List.map_map, List.flatMap_map, List.flatMap_assoc]
  rfl

theorem reworded_map (config : Config) (param : Nat) (body : Eval Value) (elements : List Value) :
    (map config param body elements).reworded k =
      map config param (body.reworded k) elements := by
  rw [map, map, reworded_bind, reworded_fork]
  simp only [reworded_each]
  rfl

theorem reworded_combine (accumulator element : Nat) (body : Eval Value) (a b : Value) :
    (combine accumulator element body a b).reworded k =
      combine accumulator element (body.reworded k) a b := by
  unfold combine
  split
  · rfl
  · rfl

theorem reworded_foldSlice (step : Value → Value → Eval Value) (values : List Value) :
    (foldSlice step values).reworded k = foldSlice (fun a b => (step a b).reworded k) values := by
  cases values with
  | nil => rfl
  | cons first rest => exact reworded_fold k step first rest

theorem reworded_reduce (config : Config) (accumulator element : Nat) (body : Eval Value)
    (base : Value) (elements : List Value) :
    (reduce config accumulator element body base elements).reworded k =
      reduce config accumulator element (body.reworded k) base elements := by
  simp only [reduce, reworded_bind, reworded_fork, reworded_foldSlice, reworded_fold,
    reworded_combine]
  rfl

section Failures

variable {k : Diagnostic → Log}
  (hk : ∀ cause span, k ⟨.runtime cause, span, none⟩ = [⟨.runtime cause, span.relocate f, none⟩])

include hk

theorem report_relocate (cause : RuntimeError) (span : Span) :
    report cause (span.relocate f) = (report cause span).reworded k := by
  funext bindings
  simp only [report, reworded, List.flatMap_singleton, hk]

theorem fail_relocate (cause : RuntimeError) (span : Span) :
    fail cause (span.relocate f) = (fail cause span).reworded k := by
  rw [fail, fail, reworded_bind, report_relocate hk]
  rfl

theorem settle_relocate (span : Span) (result : Except RuntimeError Value) :
    settle (span.relocate f) result = (settle span result).reworded k := by
  cases result with
  | ok value => rfl
  | error cause => exact fail_relocate hk cause span

theorem checkBound_relocate (which : Bound) (value : Value) (span : Span) :
    checkBound which value (span.relocate f) = (checkBound which value span).reworded k := by
  cases value with
  | int i => rfl
  | _ => exact report_relocate hk _ span

theorem range_relocate (config : Config) (span lowerSpan upperSpan : Span) (lower upper : Value) :
    range config (span.relocate f) (lowerSpan.relocate f) (upperSpan.relocate f) lower upper =
      (range config span lowerSpan upperSpan lower upper).reworded k := by
  unfold range
  split
  · rfl
  · rfl
  · simp only [ints]
    repeat' split
    · exact fail_relocate hk _ span
    · rfl
    · exact fail_relocate hk _ span
  · simp only [reworded_bind, checkBound_relocate hk]
    rfl

end Failures

end Eval

open Eval in
/-- If the replacement of reports moves those of failures, the expression with its locations moved is
evaluated like the expression itself up to this replacement. -/
theorem Expr.eval_relocate {k : Diagnostic → Log}
    (hk : ∀ cause span, k ⟨.runtime cause, span, none⟩ = [⟨.runtime cause, span.relocate f, none⟩])
    (config : Config) (e : Expr) : (e.relocate f).eval config = (e.eval config).reworded k := by
  induction e with
  | int mark value => rfl
  | float mark value => rfl
  | ref mark name target => rfl
  | binary mark op left right ihLeft ihRight =>
      simp only [relocate, eval, ihLeft, ihRight, reworded_bind, Mark.relocate, settle_relocate hk]
  | paren mark inner ih => exact ih
  | range mark lower upper ihLower ihUpper =>
      simp only [relocate, eval, ihLower, ihUpper, reworded_bind, Mark.relocate, span_relocate,
        range_relocate hk]
  | map mark argument param body ihArgument ihBody =>
      simp only [relocate, eval, ihArgument, ihBody, reworded_bind, Binding.relocate]
      refine bind_congr fun value => ?_
      split
      · rw [reworded_map]
      · rfl
  | reduce mark sequence base accumulator element body ihSequence ihBase ihBody =>
      simp only [relocate, eval, ihSequence, ihBase, ihBody, reworded_bind, Binding.relocate]
      refine bind_congr fun start => bind_congr fun value => ?_
      split
      · split
        · rfl
        · rw [reworded_reduce]
      · rfl

/-- The value and the bindings stay, and the reports are moved. -/
theorem Expr.eval_moved (config : Config) (e : Expr) (bindings : Bindings) :
    (e.relocate f).eval config bindings =
      ⟨(e.eval config bindings).value,
        (e.eval config bindings).reports.map (Diagnostic.relocate f),
        (e.eval config bindings).bindings⟩ := by
  have hEval := e.eval_relocate (k := fun d => [d.relocate f]) (fun _ _ => rfl) config
  rw [hEval, Eval.reworded, ← List.map_eq_flatMap]

theorem statements_relocate (events : List Event) :
    statements (events.map (Event.relocate f)) = (statements events).map (Statement.relocate f) := by
  simp only [statements, List.filterMap_map, List.map_filterMap]
  congr 1
  funext event
  cases event <;> rfl

/-- The output after entries were added to it one after the other. -/
def Output.insertAll (output : Output) (entries : List (Location × Value)) : Output :=
  entries.foldl (fun output entry => output.insert entry.1 entry.2) output

namespace Machine

/-- What running a statement adds to the output. -/
def entry? (config : Config) (machine : Machine) : Statement → Option (Location × Value)
  | .assign _ _ _ => none
  | .out span value => some (span.start, (value.eval config machine.bindings).value)
  | .print span text => some (span.start, .text text)

theorem execute_output (config : Config) (machine : Machine) (s : Statement) :
    (machine.execute config s).2.output =
      machine.output.insertAll ([s].filterMap (machine.entry? config)) := by
  cases s <;> rfl

variable {machine other : Machine} (h : machine.bindings = other.bindings)

include h

theorem entry?_relocate (config : Config) (s : Statement) :
    other.entry? config (s.relocate f) = (machine.entry? config s).map (Prod.map f id) := by
  cases s with
  | assign span target value => rfl
  | out span value =>
      simp only [Statement.relocate, entry?, Expr.eval_moved, h]
      rfl
  | print span text => rfl

theorem execute_relocate (config : Config) (s : Statement) :
    (other.execute config (s.relocate f)).1 =
        (machine.execute config s).1.map (Diagnostic.relocate f) ∧
      (machine.execute config s).2.bindings = (other.execute config (s.relocate f)).2.bindings := by
  cases s with
  | assign span target value =>
      constructor
      · simp only [Statement.relocate, execute, Expr.eval_moved, h]
      · simp only [Statement.relocate, execute, Expr.eval_moved, h, Binding.relocate]
  | out span value =>
      constructor
      · simp only [Statement.relocate, execute, Expr.eval_moved, h]
      · simp only [Statement.relocate, execute, Expr.eval_moved, h]
  | print span text => exact ⟨rfl, h⟩

theorem run_relocate (config : Config) (events : List Event) :
    (other.run config (events.map (Event.relocate f))).1 =
        (machine.run config events).1.map (Diagnostic.relocate f) ∧
      (machine.run config events).2.bindings =
        (other.run config (events.map (Event.relocate f))).2.bindings := by
  have hStep (event : Event) (machine other : Machine) (h : machine.bindings = other.bindings) :
      (other.step config (event.relocate f)).1 =
          (machine.step config event).1.map (Diagnostic.relocate f) ∧
        (machine.step config event).2.bindings =
          (other.step config (event.relocate f)).2.bindings := by
    cases event with
    | report d => exact ⟨rfl, h⟩
    | statement s => exact execute_relocate h config s
  exact transduce_map hStep events h

end Machine

namespace Session

/-- Takes one event like `step` and gives what is added to the output. -/
def stepEntries (config : Config) (session : Session) (event : Event) :
    List (Location × Value) × Session :=
  ((statements (session.checker.step event).1).filterMap (session.machine.entry? config),
    (session.step config event).2)

/-- What is added to the output while a program text is fed, in the order in which it is added. -/
def entries (config : Config) (session : Session) (source : String) : List (Location × Value) :=
  (transduce (stepEntries config) session (parse source)).1

theorem transduce_stepEntries (config : Config) (session : Session) (events : List Event) :
    (transduce (stepEntries config) session events).2 =
      (transduce (step config) session events).2 := by
  induction events generalizing session with
  | nil => rfl
  | cons event events ih => exact ih (session.step config event).2

theorem step_output (config : Config) (session : Session) (event : Event) :
    (session.step config event).2.machine.output =
      session.machine.output.insertAll (session.stepEntries config event).1 := by
  have hHands := session.checker.hands_step event
  simp only [step, stepEntries, Machine.run_statements]
  generalize statements (session.checker.step event).1 = handed at hHands
  generalize (session.checker.step event).2 = next at hHands
  cases hHands with
  | nothing more => rfl
  | passed hPassed => exact session.machine.execute_output config _

/-- The output after a text is the output before it with the entries of the text added. -/
theorem feed_output (config : Config) (session : Session) (source : String) :
    (session.feed config source).2.machine.output =
      session.machine.output.insertAll (session.entries config source) := by
  rw [feed, entries]
  generalize parse source = events
  induction events generalizing session with
  | nil => rfl
  | cons event events ih =>
      rw [transduce_cons, transduce_cons, Output.insertAll, List.foldl_append]
      exact (ih _).trans (by rw [step_output]; rfl)

/-- The sessions differ in their outputs only. -/
structure Level (one two : Session) : Prop where
  checker : one.checker = two.checker
  bindings : one.machine.bindings = two.machine.bindings

variable {one two : Session}

theorem Level.step_relocate (h : one.Level two) (config : Config) (event : Event) :
    (two.step config (event.relocate f)).1 =
        (one.step config event).1.map (Diagnostic.relocate f) ∧
      (one.step config event).2.Level (two.step config (event.relocate f)).2 := by
  obtain ⟨hReports, hBindings⟩ :=
    Machine.run_relocate (f := f) h.bindings config (one.checker.step event).1
  simp only [step, ← h.checker, Checker.step_relocate]
  exact ⟨hReports, rfl, hBindings⟩

theorem Level.entries_relocate (h : one.Level two) (config : Config) (event : Event) :
    (two.stepEntries config (event.relocate f)).1 =
      (one.stepEntries config event).1.map (Prod.map f id) := by
  simp only [stepEntries, ← h.checker, Checker.step_relocate, Prod.map_fst, statements_relocate,
    List.filterMap_map, List.map_filterMap]
  congr 1
  funext s
  exact Machine.entry?_relocate h.bindings config s

/-- Taking the events at the moved locations gives the reports and the entries at the moved
locations. -/
theorem Level.transduce_relocate (h : one.Level two) (config : Config) (events : List Event) :
    (transduce (step config) two (events.map (Event.relocate f))).1 =
        (transduce (step config) one events).1.map (Diagnostic.relocate f) ∧
      (transduce (stepEntries config) two (events.map (Event.relocate f))).1 =
        (transduce (stepEntries config) one events).1.map (Prod.map f id) := by
  constructor
  · exact (transduce_map (fun event _ _ hLevel => hLevel.step_relocate config event) events h).1
  · exact (transduce_map (fun event _ _ hLevel => ⟨hLevel.entries_relocate config event,
      (hLevel.step_relocate config event).2⟩) events h).1

end Session

end Progression
