import Mathlib.Logic.Function.Basic
import Progression.Proofs.Pipeline
import Progression.Proofs.Slices

/-! Evaluation in one pass, without slices and copies: a range is the list of its integers, and `map`
goes through its elements from left to right. Programs without `reduce` mean the same under it as
under sliced evaluation, whatever the number of workers. -/

namespace Progression

/-- What the variables stand for, by their numbers. -/
abbrev Environment := Nat → Option Value

/-- A value and what was reported on the way to it. -/
structure Answer where
  value : Value
  reports : Log

namespace Answer

/-- The answer of a failure that is reported here. -/
def failure (cause : RuntimeError) (span : Span) : Answer :=
  ⟨.error, [⟨.runtime cause, span, none⟩]⟩

/-- The answer after other reports. -/
def after (earlier : Log) (answer : Answer) : Answer := ⟨answer.value, earlier ++ answer.reports⟩

/-- The sequence of all answers in their order, or the error value if one of them is. -/
def collect (answers : List Answer) : Answer :=
  ⟨if answers.any (fun answer => answer.value.isError) then .error
    else .sequence (answers.map Answer.value),
    answers.flatMap Answer.reports⟩

/-- The answer as the outcome of a computation that leaves the bindings as they are. -/
def outcome (answer : Answer) (bindings : Bindings) : Outcome Value :=
  ⟨answer.value, answer.reports, bindings⟩

end Answer

namespace Sequential

/-- An operator on two values. -/
def operate (span : Span) (op : Operator) (a b : Value) : Answer :=
  match op.apply a b with
  | .ok value => ⟨value, []⟩
  | .error cause => .failure cause span

/-- The integers `lower`, `lower + 1`, and so on up to `upper`, if there is room for them. -/
def interval (holds : Nat → Bool) (span : Span) (lower upper : Int64) : Answer :=
  let size := (upper.toInt - lower.toInt + 1).toNat
  if upper.toInt < lower.toInt then .failure .invertedRange span
  else if size < UInt64.size ∧ holds size = true then
    ⟨.sequence ((List.range size).map fun (k : Nat) => .int (Int64.ofInt (lower.toInt + k))), []⟩
  else .failure (.rangeTooLarge size) span

/-- What is wrong with a bound of a range. -/
def boundReports (which : Bound) (value : Value) (span : Span) : Log :=
  match value with
  | .int _ => []
  | other => [⟨.runtime (.boundNotInt which other.kind), span, none⟩]

/-- The range with the given bounds. -/
def range (holds : Nat → Bool) (span lowerSpan upperSpan : Span) : Value → Value → Answer
  | .error, _ => ⟨.error, []⟩
  | _, .error => ⟨.error, []⟩
  | .int lower, .int upper => interval holds span lower upper
  | lower, upper =>
      ⟨.error, boundReports .lower lower lowerSpan ++ boundReports .upper upper upperSpan⟩

/-- Folds values from left to right; a failure ends the work. -/
def foldLeft (step : Value → Value → Answer) (start : Value) : List Value → Answer
  | [] => ⟨start, []⟩
  | value :: values =>
      if start.isError || value.isError then ⟨.error, []⟩
      else
        let next := step start value
        (foldLeft step next.value values).after next.reports

end Sequential

/-- Evaluates an expression in one pass. Nothing but the variables of enclosing lambdas is ever
changed, so an environment goes in and none comes out. -/
def Expr.sequential (holds : Nat → Bool) : Expr → Environment → Answer
  | int _ value, _ => ⟨.int value, []⟩
  | float _ value, _ => ⟨.float value, []⟩
  | ref _ _ target, environment => ⟨(target.bind environment).getD .error, []⟩
  | binary mark op left right, environment =>
      let a := left.sequential holds environment
      let b := right.sequential holds environment
      (Sequential.operate mark.span op a.value b.value).after (a.reports ++ b.reports)
  | paren _ inner, environment => inner.sequential holds environment
  | range mark lower upper, environment =>
      let a := lower.sequential holds environment
      let b := upper.sequential holds environment
      (Sequential.range holds mark.span lower.span upper.span a.value b.value).after
        (a.reports ++ b.reports)
  | map _ argument param body, environment =>
      let source := argument.sequential holds environment
      match source.value, param.id with
      | .sequence elements, some id =>
          (Answer.collect (elements.map fun element =>
            body.sequential holds (Function.update environment id (some element)))).after
              source.reports
      | _, _ => ⟨.error, source.reports⟩
  | reduce _ sequence base accumulator element body, environment =>
      let start := base.sequential holds environment
      let source := sequence.sequential holds environment
      match source.value, accumulator.id, element.id with
      | .sequence elements, some a, some e =>
          (Sequential.foldLeft (fun x y => body.sequential holds
            (Function.update (Function.update environment a (some x)) e (some y)))
            start.value elements).after (start.reports ++ source.reports)
      | _, _, _ => ⟨.error, start.reports ++ source.reports⟩

/-- Whether a `reduce` stands somewhere in the expression. -/
def Expr.usesReduce : Expr → Bool
  | int _ _ => false
  | float _ _ => false
  | ref _ _ _ => false
  | binary _ _ left right => left.usesReduce || right.usesReduce
  | paren _ inner => inner.usesReduce
  | range _ lower upper => lower.usesReduce || upper.usesReduce
  | map _ argument _ body => argument.usesReduce || body.usesReduce
  | reduce _ _ _ _ _ _ => true

/-- Whether a `reduce` stands somewhere in the statement. -/
def Statement.usesReduce : Statement → Bool
  | assign _ _ value => value.usesReduce
  | out _ value => value.usesReduce
  | print _ _ => false

namespace Sequential

/-- What is known between two statements. -/
structure State where
  environment : Environment
  output : Output

/-- Before the first statement nothing is known. -/
def State.first : State := ⟨fun _ => none, []⟩

/-- Runs a statement in one pass. -/
def execute (holds : Nat → Bool) (state : State) : Statement → Log × State
  | .assign _ target value =>
      let answer := value.sequential holds state.environment
      let environment := match target.id with
        | some id => Function.update state.environment id (some answer.value)
        | none => state.environment
      (answer.reports, { state with environment := environment })
  | .out span value =>
      let answer := value.sequential holds state.environment
      (answer.reports, { state with output := state.output.insert span.start answer.value })
  | .print span text =>
      ([], { state with output := state.output.insert span.start (.text text) })

/-- Takes one event: reports are passed on, statements run. -/
def step (holds : Nat → Bool) (state : State) : Event → Log × State
  | .report d => ([d], state)
  | .statement s => execute holds state s

/-- Checks a program and runs in one pass what passes. -/
def evaluate (holds : Nat → Bool) (source : String) : Evaluation :=
  let (log, state) := transduce (step holds) State.first (typeCheck source).1
  ⟨state.output, log⟩

end Sequential

theorem Bindings.lookup_bind_eq (bindings : Bindings) (id : Nat) (value : Value) :
    (bindings.bind id value).lookup = Function.update bindings.lookup id (some value) := by
  funext other
  rw [Bindings.lookup_bind, Function.update_apply]

namespace Eval

variable {config : Config}

theorem settle_eq (span : Span) (op : Operator) (a b : Value) (bindings : Bindings) :
    settle span (op.apply a b) bindings = (Sequential.operate span op a b).outcome bindings := by
  unfold Sequential.operate
  cases op.apply a b with
  | ok value => rfl
  | error cause => rfl

/-- The integers of a range are counted up in one go, whatever slices they are filled in. -/
theorem ints_eq (span : Span) (lower upper : Int64) (bindings : Bindings) :
    ints config span lower upper bindings =
      (Sequential.interval config.holds span lower upper).outcome bindings := by
  have hSize : (upper.toInt - lower.toInt + 1).toNat = Integer.rangeSize lower upper := rfl
  unfold ints Sequential.interval
  rw [hSize]
  by_cases hInverted : upper < lower
  · rw [if_pos hInverted, if_pos (Int64.lt_iff_toInt_lt.mp hInverted)]
    rfl
  · have hOrder : ¬upper.toInt < lower.toInt := fun h => hInverted (Int64.lt_iff_toInt_lt.mpr h)
    have hUpper := upper.toInt_le
    have hFits : lower.toInt + Integer.rangeSize lower upper ≤ Int64.maxValue.toInt + 1 := by
      rw [← hSize]
      omega
    rw [if_neg hInverted, if_neg hOrder, flatMap_rangeSlice config.workers_pos hFits]
    have hRoom (n : Nat) : (Integer.isLength n && config.holds n) = true ↔
        n < UInt64.size ∧ config.holds n = true := by
      rw [Bool.and_eq_true, Integer.isLength, decide_eq_true_iff]
    by_cases hHeld : Integer.rangeSize lower upper < UInt64.size ∧
        config.holds (Integer.rangeSize lower upper) = true
    · rw [if_pos ((hRoom _).mpr hHeld), if_pos hHeld]
      rfl
    · rw [if_neg (fun h => hHeld ((hRoom _).mp h)), if_neg hHeld]
      rfl

theorem checkBound_eq (which : Bound) (value : Value) (span : Span) (bindings : Bindings) :
    checkBound which value span bindings =
      ⟨(), Sequential.boundReports which value span, bindings⟩ := by
  cases value <;> rfl

theorem range_eq (span lowerSpan upperSpan : Span) (lower upper : Value) (bindings : Bindings) :
    range config span lowerSpan upperSpan lower upper bindings =
      (Sequential.range config.holds span lowerSpan upperSpan lower upper).outcome bindings := by
  unfold range
  split
  · rfl
  · cases lower <;> rfl
  · exact ints_eq span _ _ bindings
  · rw [Sequential.range]
    · simp only [Eval.bind_apply, checkBound_eq, give, Answer.outcome, List.append_nil]
    all_goals assumption

/-- All slices together are the elements in their order, so the lambda is applied to the elements
from left to right if it is so within every slice. -/
theorem map_of_each {id : Nat} {body : Eval Value} {answer : Value → Answer} {bindings : Bindings}
    (hEach : ∀ slice : List Value,
      (each (applyTo id body) slice bindings).value =
          slice.map (fun element => (answer element).value) ∧
        (each (applyTo id body) slice bindings).reports =
          slice.flatMap fun element => (answer element).reports) (elements : List Value) :
    map config id body elements bindings =
      (Answer.collect (elements.map answer)).outcome bindings := by
  have hSplit := flatMap_split elements config.workers_pos
  have hValues : ((split elements config.workers).map fun part =>
      (each (applyTo id body) part.2 bindings).value).flatten =
        elements.map fun element => (answer element).value := by
    simp only [(hEach _).1]
    rw [← List.flatMap_def, ← List.map_flatMap, hSplit]
  have hReports : ((split elements config.workers).flatMap fun part =>
      (each (applyTo id body) part.2 bindings).reports) =
        elements.flatMap fun element => (answer element).reports := by
    simp only [(hEach _).2]
    rw [← List.flatMap_assoc, hSplit]
  simp only [map, Eval.bind_apply, fork, give, List.map_map, List.flatMap_map, Function.comp_def,
    hValues, hReports, List.append_nil, Answer.outcome, Answer.collect, List.any_map]

section Lambda

variable {id : Nat} {body : Eval Value} {answer : Environment → Answer}
  (hBody : ∀ bindings, body bindings = (answer bindings.lookup).outcome bindings)

include hBody

theorem applyTo_eq (element : Value) (bindings : Bindings) :
    applyTo id body element bindings =
      (answer (Function.update bindings.lookup id (some element))).outcome
        (bindings.bind id element) := by
  rw [← Bindings.lookup_bind_eq, ← hBody]
  rfl

/-- The elements of a slice share one copy of the bindings. What the lambda's variable stood for
before never shows, because it is bound anew for every element. -/
theorem each_applyTo (elements : List Value) (bindings : Bindings) :
    (each (applyTo id body) elements bindings).value =
        elements.map (fun element =>
          (answer (Function.update bindings.lookup id (some element))).value) ∧
      (each (applyTo id body) elements bindings).reports =
        elements.flatMap fun element =>
          (answer (Function.update bindings.lookup id (some element))).reports := by
  induction elements generalizing bindings with
  | nil => exact ⟨rfl, rfl⟩
  | cons element elements ih =>
      obtain ⟨hValue, hReports⟩ := ih (bindings.bind id element)
      simp only [Bindings.lookup_bind_eq, Function.update_idem] at hValue hReports
      rw [each_cons, applyTo_eq hBody, List.map_cons, List.flatMap_cons]
      exact ⟨by rw [Answer.outcome, hValue], by rw [Answer.outcome, hReports]⟩

theorem map_eq (elements : List Value) (bindings : Bindings) :
    map config id body elements bindings =
      (Answer.collect (elements.map fun element =>
        answer (Function.update bindings.lookup id (some element)))).outcome bindings :=
  map_of_each (fun slice => each_applyTo hBody slice bindings) elements

end Lambda

end Eval

/-- Without `reduce`, sliced evaluation is evaluation in one pass, and it leaves the bindings as
they are. -/
theorem Expr.eval_eq_sequential (config : Config) (e : Expr) (hFree : e.usesReduce = false)
    (bindings : Bindings) :
    e.eval config bindings = (e.sequential config.holds bindings.lookup).outcome bindings := by
  induction e generalizing bindings with
  | int => rfl
  | float => rfl
  | ref => rfl
  | binary mark op left right ihLeft ihRight =>
      rw [usesReduce, Bool.or_eq_false_iff] at hFree
      simp only [eval, sequential, Eval.bind_apply, ihLeft hFree.1, ihRight hFree.2, Answer.outcome,
        Answer.after, Eval.settle_eq, List.append_assoc]
  | paren mark inner ih => exact ih hFree bindings
  | range mark lower upper ihLower ihUpper =>
      rw [usesReduce, Bool.or_eq_false_iff] at hFree
      simp only [eval, sequential, Eval.bind_apply, ihLower hFree.1, ihUpper hFree.2, Answer.outcome,
        Answer.after, Eval.range_eq, List.append_assoc]
  | map mark argument param body ihArgument ihBody =>
      rw [usesReduce, Bool.or_eq_false_iff] at hFree
      simp only [eval, sequential, Eval.bind_apply, ihArgument hFree.1, Answer.outcome]
      cases (argument.sequential config.holds bindings.lookup).value with
      | sequence elements =>
          cases param.id with
          | some id => simp only [Eval.map_eq (ihBody hFree.2), Answer.outcome, Answer.after]
          | none => simp only [Eval.pure_apply, List.append_nil]
      | int | float | text | error => simp only [Eval.pure_apply, List.append_nil]
  | reduce => cases hFree

namespace Sequential

/-- A machine knows what a state of the one-pass evaluation knows. -/
structure Represents (machine : Machine) (state : State) : Prop where
  environment : machine.bindings.lookup = state.environment
  output : machine.output = state.output

theorem represents_first : Represents Machine.first State.first := ⟨rfl, rfl⟩

theorem execute_represents (config : Config) {machine : Machine} {state : State}
    (h : Represents machine state) {s : Statement} (hFree : s.usesReduce = false) :
    (machine.execute config s).1 = (execute config.holds state s).1 ∧
      Represents (machine.execute config s).2 (execute config.holds state s).2 := by
  have hAnswer (value : Expr) (hValue : value.usesReduce = false) :
      value.eval config machine.bindings =
        (value.sequential config.holds state.environment).outcome machine.bindings := by
    rw [← h.environment, Expr.eval_eq_sequential config value hValue]
  cases s with
  | assign span target value =>
      simp only [Machine.execute, execute, hAnswer value hFree, Answer.outcome, true_and]
      cases target.id with
      | some id =>
          refine ⟨?_, h.output⟩
          rw [Bindings.lookup_bind_eq, h.environment]
      | none => exact ⟨h.environment, h.output⟩
  | out span value =>
      simp only [Machine.execute, execute, hAnswer value hFree, Answer.outcome, true_and, h.output]
      exact ⟨h.environment, rfl⟩
  | print span text =>
      simp only [Machine.execute, execute, true_and, h.output]
      exact ⟨h.environment, rfl⟩

theorem step_represents (config : Config) {machine : Machine} {state : State}
    (h : Represents machine state) {event : Event}
    (hFree : ∀ s, event.statement? = some s → s.usesReduce = false) :
    (machine.step config event).1 = (step config.holds state event).1 ∧
      Represents (machine.step config event).2 (step config.holds state event).2 := by
  cases event with
  | report d => exact ⟨rfl, h⟩
  | statement s => exact execute_represents config h (hFree s rfl)

end Sequential

/-- A program none of whose accepted statements uses `reduce` gives the output and the reports of
its evaluation in one pass, whatever the number of workers. -/
theorem evaluate_eq_sequential (config : Config) (source : String)
    (hFree : ∀ s ∈ statements (typeCheck source).1, s.usesReduce = false) :
    evaluate config source = Sequential.evaluate config.holds source ∧
      ∀ other : Config, other.holds = config.holds →
        evaluate other source = evaluate config source := by
  have hAny (any : Config) : evaluate any source = Sequential.evaluate any.holds source := by
    have hStep : ∀ event ∈ (typeCheck source).1, ∀ machine state,
        Sequential.Represents machine state →
          (machine.step any event).1 = (Sequential.step any.holds state event).1 ∧
            Sequential.Represents (machine.step any event).2
              (Sequential.step any.holds state event).2 := by
      intro event hEvent machine state h
      apply Sequential.step_represents any h
      intro s hStatement
      exact hFree s (List.mem_filterMap.mpr ⟨event, hEvent, hStatement⟩)
    obtain ⟨hLog, hFinal⟩ := transduce_simulates _ hStep Sequential.represents_first
    rw [evaluate_eq]
    simp only [Machine.run, Sequential.evaluate, hLog, hFinal.output]
  refine ⟨hAny config, ?_⟩
  intro other hHolds
  rw [hAny other, hAny config, hHolds]

/-- A lambda inside a lambda with a failing element is accepted and evaluated alike by three workers,
by one worker and in one pass. -/
theorem evaluate_eq_sequential_nested :
    ∃ source, source = "out map({-1, 3}, x -> map({1, 2}, y -> 6 / (x * y)))" ∧
      (statements (typeCheck source).1).map Statement.usesReduce = [false] ∧
      evaluate (Config.ofWorkers 3) source =
        Sequential.evaluate (Config.ofWorkers 3).holds source ∧
      evaluate (Config.ofWorkers 1) source = evaluate (Config.ofWorkers 3) source := by
  refine ⟨_, rfl, by decide +kernel, ?_⟩
  have h := evaluate_eq_sequential (Config.ofWorkers 3)
    "out map({-1, 3}, x -> map({1, 2}, y -> 6 / (x * y)))" (by decide +kernel)
  exact ⟨h.1, h.2 (Config.ofWorkers 1) rfl⟩

end Progression
