import Progression.Proofs.Executions
import Progression.Proofs.Sequential
import Progression.Proofs.Soundness

/-! Evaluation by names. Here an expression is evaluated in an environment that maps names to
values, where the parameter of a lambda hides every other variable of its name inside the body; the
numbers of variables play no part. Checked programs mean the same under it as under evaluation by
numbers. -/

namespace Progression

/-- What the names in scope stand for. -/
abbrev Names := String → Option Value

theorem Answer.after_after (answer : Answer) (early late : Log) :
    (answer.after late).after early = answer.after (early ++ late) := by
  simp [Answer.after]

namespace Named

/-- Folds a slice from its first value on. -/
def foldSlice (step : Value → Value → Answer) : List Value → Answer
  | [] => ⟨.error, []⟩
  | first :: rest => Sequential.foldLeft step first rest

/-- Folds every slice by itself and then the results of the slices, beginning with `start`. -/
def reduce (workers : Nat) (step : Value → Value → Answer) (start : Value)
    (elements : List Value) : Answer :=
  let parts := (split elements workers).map fun (_, slice) => foldSlice step slice
  (Sequential.foldLeft step start (parts.map Answer.value)).after (parts.flatMap Answer.reports)

end Named

/-- Evaluates an expression by names. -/
def Expr.named (config : Config) : Expr → Names → Answer
  | int _ value, _ => ⟨.int value, []⟩
  | float _ value, _ => ⟨.float value, []⟩
  | ref _ name _, names => ⟨(names name).getD .error, []⟩
  | binary mark op left right, names =>
      let a := left.named config names
      let b := right.named config names
      (Sequential.operate mark.span op a.value b.value).after (a.reports ++ b.reports)
  | paren _ inner, names => inner.named config names
  | range mark lower upper, names =>
      let a := lower.named config names
      let b := upper.named config names
      (Sequential.range config.holds mark.span lower.span upper.span a.value b.value).after
        (a.reports ++ b.reports)
  | map _ argument param body, names =>
      let source := argument.named config names
      Answer.after source.reports <|
        match source.value with
        | .sequence elements => Answer.collect (elements.map fun element =>
            body.named config (Function.update names param.name (some element)))
        | _ => ⟨.error, []⟩
  | reduce _ sequence base accumulator element body, names =>
      let start := base.named config names
      let source := sequence.named config names
      Answer.after (start.reports ++ source.reports) <|
        match source.value with
        | .sequence elements =>
            if start.value.isError then ⟨.error, []⟩
            else Named.reduce config.workers (fun a b => body.named config
              (Function.update (Function.update names accumulator.name (some a)) element.name
                (some b))) start.value elements
        | _ => ⟨.error, []⟩

/-- The variables that a scope leads to are bound to what the names stand for. -/
def Scope.Shows (scope : Scope) (bindings : Bindings) (names : Names) : Prop :=
  ∀ name id, scope.lookup name = some id → bindings.lookup id = names name

/-- The variables that a scope leads to have types. -/
def Types.Cover (types : Types) (scope : Scope) : Prop :=
  ∀ name id, scope.lookup name = some id → types id ≠ none

section Shows

variable {types : Types} {scope : Scope} {bindings after : Bindings} {names : Names}

theorem Agrees.cover {declared : Array Variable} (h : Agrees types scope declared) :
    Types.Cover types scope := by
  intro name id hLookup
  obtain ⟨v, -, -, hType⟩ := h.visible name id hLookup
  simp [hType]

theorem Types.Cover.enter (h : Types.Cover types scope) : Types.Cover types scope.enter := h

theorem Types.Cover.declare (h : Types.Cover types scope) (id : Nat) (type : Ty) (name : String) :
    Types.Cover (Function.update types id (some type)) (scope.declare name id) := by
  intro other otherId hLookup
  by_cases hSame : otherId = id
  · simp [hSame]
  · rw [Function.update_of_ne hSame]
    rw [Scope.lookup_declare] at hLookup
    split at hLookup
    · cases hLookup
      exact absurd rfl hSame
    · exact h other otherId hLookup

theorem Scope.Shows.of_kept (h : scope.Shows bindings names) (hCover : Types.Cover types scope)
    (hKept : Kept types bindings after) : scope.Shows after names := by
  intro name id hLookup
  rw [hKept id (hCover name id hLookup)]
  exact h name id hLookup

/-- Binding a new variable changes what its name stands for, and nothing else. -/
theorem Scope.Shows.bind (h : scope.Shows bindings names) (hCover : Types.Cover types scope)
    {id : Nat} (hNew : types id = none) (name : String) (value : Value) :
    (scope.declare name id).Shows (bindings.bind id value)
      (Function.update names name (some value)) := by
  intro other otherId hLookup
  rw [Scope.lookup_declare] at hLookup
  rw [Bindings.lookup_bind, Function.update_apply]
  by_cases hSame : other = name
  · rw [if_pos hSame] at hLookup
    cases hLookup
    rw [if_pos rfl, if_pos hSame]
  · rw [if_neg hSame] at hLookup
    have hOther : otherId ≠ id := by
      rintro rfl
      exact hCover other otherId hLookup hNew
    rw [if_neg hOther, if_neg hSame]
    exact h other otherId hLookup

end Shows

/-- The outcome is the answer, and the typed variables are bound as before. -/
structure Outcome.Matches (types : Types) (bindings : Bindings) (outcome : Outcome Value)
    (answer : Answer) : Prop where
  value : outcome.value = answer.value
  reports : outcome.reports = answer.reports
  kept : Kept types bindings outcome.bindings

/-- The computation gives the answer from all bindings that show the names. -/
def Means (types : Types) (scope : Scope) (names : Names) (computation : Eval Value)
    (answer : Answer) : Prop :=
  ∀ bindings, scope.Shows bindings names →
    (computation bindings).Matches types bindings answer

/-- A fold that has failed stays so, and says nothing more. -/
theorem Sequential.foldLeft_error (step : Value → Value → Answer) (values : List Value) :
    Sequential.foldLeft step .error values = ⟨.error, []⟩ := by
  cases values <;> rfl

namespace Means

variable {types : Types} {scope : Scope} {names : Names} {config : Config}

theorem of_eq {computation : Eval Value} {answer : Answer}
    (h : ∀ bindings, computation bindings = answer.outcome bindings) :
    Means types scope names computation answer := by
  intro bindings _
  rw [h]
  exact ⟨rfl, rfl, Kept.refl _ _⟩

theorem pure (value : Value) : Means types scope names (Pure.pure value) ⟨value, []⟩ :=
  of_eq fun _ => rfl

theorem read {name : String} {id : Nat} (hLookup : scope.lookup name = some id) :
    Means types scope names (Eval.read (some id)) ⟨(names name).getD .error, []⟩ := by
  intro bindings hShows
  have hValue := hShows name id hLookup
  exact ⟨by simp [Eval.read, hValue], rfl, Kept.refl _ _⟩

theorem settle (span : Span) (op : Operator) (a b : Value) :
    Means types scope names (Eval.settle span (op.apply a b)) (Sequential.operate span op a b) :=
  of_eq (Eval.settle_eq span op a b)

theorem range (span lowerSpan upperSpan : Span) (lower upper : Value) :
    Means types scope names (Eval.range config span lowerSpan upperSpan lower upper)
      (Sequential.range config.holds span lowerSpan upperSpan lower upper) :=
  of_eq (Eval.range_eq span lowerSpan upperSpan lower upper)

/-- The body of a lambda with its new variable bound. -/
theorem bound (hCover : Types.Cover types scope) {id : Nat} (hNew : types id = none)
    {type : Ty} {name : String} {value : Value} {body : Eval Value} {answer : Answer}
    (hBody : Means (Function.update types id (some type)) (scope.declare name id)
      (Function.update names name (some value)) body answer) :
    Means types scope names (Eval.applyTo id body value) answer := by
  intro bindings hShows
  have h := hBody _ (hShows.bind hCover hNew name value)
  exact ⟨h.value, h.reports, Kept.of_bind hNew h.kept⟩

section Cover

variable (hCover : Types.Cover types scope)

include hCover

theorem bind {first : Eval Value} {next : Value → Eval Value} {one two : Answer}
    (hFirst : Means types scope names first one)
    (hNext : Means types scope names (next one.value) two) :
    Means types scope names (first >>= next) (two.after one.reports) := by
  intro bindings hShows
  have hOne := hFirst bindings hShows
  have hTwo := hNext _ (hShows.of_kept hCover hOne.kept)
  rw [Eval.bind_apply, hOne.value, hOne.reports]
  exact ⟨hTwo.value, by rw [hTwo.reports, Answer.after], hOne.kept.trans hTwo.kept⟩

/-- Tasks done in turn give their answers in turn, although each may leave other bindings behind. -/
theorem each {α : Type} {task : α → Eval Value} {answer : α → Answer}
    (hTask : ∀ item, Means types scope names (task item) (answer item)) (items : List α)
    {bindings : Bindings} (hShows : scope.Shows bindings names) :
    (Eval.each task items bindings).value = items.map (fun item => (answer item).value) ∧
      (Eval.each task items bindings).reports =
        items.flatMap fun item => (answer item).reports := by
  induction items generalizing bindings with
  | nil => exact ⟨rfl, rfl⟩
  | cons item items ih =>
      have hOne := hTask item bindings hShows
      obtain ⟨hValue, hReports⟩ := ih (hShows.of_kept hCover hOne.kept)
      rw [Eval.each_cons, List.map_cons, List.flatMap_cons]
      exact ⟨by rw [hOne.value, hValue], by rw [hOne.reports, hReports]⟩

/-- A lambda applied to every element of a sequence. -/
theorem map {id : Nat} (hNew : types id = none) {type : Ty} {name : String} {body : Eval Value}
    {answer : Value → Answer}
    (hBody : ∀ element, Means (Function.update types id (some type)) (scope.enter.declare name id)
      (Function.update names name (some element)) body (answer element))
    (elements : List Value) :
    Means types scope names (Eval.map config id body elements)
      (Answer.collect (elements.map answer)) := by
  intro bindings hShows
  have hEach (slice : List Value) :=
    each hCover (fun element => bound hCover.enter hNew (hBody element)) slice hShows
  rw [Eval.map_of_each hEach]
  exact ⟨rfl, rfl, Kept.refl _ _⟩

variable {answer : Value → Value → Answer}

/-- One step of a fold. Nothing is evaluated once a failure has come in. -/
theorem combine {a e : Nat} (hAccumulator : types a = none) (hElement : types e = none)
    (hDistinct : a ≠ e) {type elementType : Ty} {first second : String} {body : Eval Value}
    (hBody : ∀ x y, Means (Function.update (Function.update types a (some type)) e
      (some elementType)) ((scope.enter.declare first a).declare second e)
      (Function.update (Function.update names first (some x)) second (some y)) body (answer x y))
    (x y : Value) :
    Means types scope names (Eval.combine a e body x y)
      (if x.isError || y.isError then ⟨.error, []⟩ else answer x y) := by
  unfold Eval.combine
  split
  · exact Means.pure .error
  · have hInner : Function.update types a (some type) e = none := by
      rw [Function.update_of_ne hDistinct.symm, hElement]
    have hTwo := bound (hCover.enter.declare a type first) hInner (hBody x y)
    exact bound hCover.enter hAccumulator hTwo

variable {step : Value → Value → Eval Value}
  (hStep : ∀ x y, Means types scope names (step x y)
    (if x.isError || y.isError then ⟨.error, []⟩ else answer x y))

include hStep

theorem fold (start : Value) (items : List Value) :
    Means types scope names (Eval.fold step start items)
      (Sequential.foldLeft answer start items) := by
  induction items generalizing start with
  | nil => exact Means.pure start
  | cons item items ih =>
      intro bindings hShows
      have hOne := hStep start item bindings hShows
      have hRest := ih (step start item bindings).value _ (hShows.of_kept hCover hOne.kept)
      rw [Eval.fold_cons, Sequential.foldLeft]
      split at hOne
      · next hFailed =>
          rw [hOne.value, Sequential.foldLeft_error] at hRest
          rw [if_pos hFailed, hOne.value, hOne.reports]
          exact ⟨hRest.value, hRest.reports, hOne.kept.trans hRest.kept⟩
      · next hSound =>
          rw [hOne.value] at hRest
          rw [if_neg hSound, hOne.value, hOne.reports]
          exact ⟨hRest.value, by rw [hRest.reports, Answer.after], hOne.kept.trans hRest.kept⟩

theorem foldSlice (values : List Value) :
    Means types scope names (Eval.foldSlice step values) (Named.foldSlice answer values) := by
  cases values with
  | nil => exact Means.pure .error
  | cons first rest => exact fold hCover hStep first rest

end Cover

/-- A fold over slices. The variables of the lambda are released at the end, which no name in scope
can notice. -/
theorem reduce (hCover : Types.Cover types scope) {a e : Nat} (hAccumulator : types a = none)
    (hElement : types e = none) (hDistinct : a ≠ e) {type elementType : Ty}
    {first second : String} {body : Eval Value} {answer : Value → Value → Answer}
    (hBody : ∀ x y, Means (Function.update (Function.update types a (some type)) e
      (some elementType)) ((scope.enter.declare first a).declare second e)
      (Function.update (Function.update names first (some x)) second (some y)) body (answer x y))
    (start : Value) (elements : List Value) :
    Means types scope names (Eval.reduce config a e body start elements)
      (Named.reduce config.workers answer start elements) := by
  intro bindings hShows
  have hStep := combine hCover hAccumulator hElement hDistinct hBody
  have hPart (slice : List Value) := foldSlice hCover hStep slice bindings hShows
  have hFold := fold hCover hStep start ((split elements config.workers).map fun part =>
    (Named.foldSlice answer part.2).value) bindings hShows
  simp only [Eval.reduce, Eval.bind_apply, Eval.fork, Eval.give, Eval.release, List.map_map,
    List.flatMap_map, Function.comp_def, (hPart _).value, (hPart _).reports, List.append_nil]
  refine ⟨?_, ?_, ?_⟩
  · rw [hFold.value]
    simp [Named.reduce, Answer.after, Function.comp_def]
  · rw [hFold.reports]
    simp [Named.reduce, Answer.after, Function.comp_def, List.flatMap_map]
  · exact (hFold.kept.trans (Kept.release types _ hAccumulator)).trans
      (Kept.release types _ hElement)

end Means

/-- What passes the checker evaluates to what it means by names. -/
theorem Expr.Passed.means (config : Config) {e checked : Expr} {type : Ty} {scope : Scope}
    {declared final : Array Variable} (h : e.Passed scope declared type checked final)
    {types : Types} (hAgrees : Agrees types scope declared) (names : Names) :
    Means types scope names (checked.eval config) (checked.named config names) := by
  induction h generalizing types names with
  | int => exact Means.pure _
  | float => exact Means.pure _
  | @ref scope declared mark name target id v hLookup hVariable =>
      obtain ⟨w, hSame, hId, -⟩ := hAgrees.visible name id hLookup
      rw [hVariable] at hSame
      cases hSame
      rw [hId]
      exact Means.read hLookup
  | binary hLeft _ ihLeft ihRight =>
      obtain ⟨more, rfl⟩ := hLeft.grows
      have hRight := ihRight (hAgrees.grow more) names
      rw [named, ← Answer.after_after]
      exact (ihLeft hAgrees names).bind hAgrees.cover
        (hRight.bind hAgrees.cover (Means.settle _ _ _ _))
  | paren _ ih => exact ih hAgrees names
  | range hLower _ ihLower ihUpper =>
      obtain ⟨more, rfl⟩ := hLower.grows
      have hUpper := ihUpper (hAgrees.grow more) names
      rw [named, ← Answer.after_after]
      exact (ihLower hAgrees names).bind hAgrees.cover
        (hUpper.bind hAgrees.cover (Means.range _ _ _ _ _))
  | @map _ _ _ _ _ _ _ argument body param element _ hArgument _ ihArgument ihBody =>
      obtain ⟨more, rfl⟩ := hArgument.grows
      have hBefore := hAgrees.grow more
      have hNew := hBefore.unknown _ (Nat.le_refl _)
      have hLambda (v : Value) := ihBody (hBefore.enter.declare param.name element)
        (Function.update names param.name (some v))
      refine (ihArgument hAgrees names).bind hAgrees.cover ?_
      cases (argument.named config names).value with
      | sequence elements => exact Means.map hAgrees.cover hNew hLambda elements
      | int | float | text | error => exact Means.pure .error
  | @reduce _ _ _ _ _ _ _ _ _ sequence base body accumulator element elementType type hBase
      hSequence _ _ ihBase ihSequence ihBody =>
      obtain ⟨more, rfl⟩ := hBase.grows
      have hMiddle := hAgrees.grow more
      obtain ⟨rest, rfl⟩ := hSequence.grows
      have hBefore := hMiddle.grow rest
      have hInner := (hBefore.enter.declare accumulator.name type).declare element.name elementType
      rw [Array.size_push] at hInner
      have hLambda (v w : Value) := ihBody hInner
        (Function.update (Function.update names accumulator.name (some v)) element.name (some w))
      rw [named, ← Answer.after_after]
      refine (ihBase hAgrees names).bind hAgrees.cover
        ((ihSequence hMiddle names).bind hAgrees.cover ?_)
      cases (sequence.named config names).value with
      | sequence elements =>
          dsimp only [Binding.resolved]
          split
          · exact Means.pure .error
          · exact Means.reduce hAgrees.cover (hBefore.unknown _ (Nat.le_refl _))
              (hBefore.unknown _ (by omega)) (by omega) hLambda _ elements
      | int | float | text | error => exact Means.pure .error

namespace Named

/-- Runs a statement by names: what it gives, and what the names stand for afterwards. -/
def execute (config : Config) (names : Names) : Statement → List Answer × Names
  | .assign _ target value =>
      let answer := value.named config names
      ([answer], Function.update names target.name (some answer.value))
  | .out _ value => ([value.named config names], names)
  | .print _ text => ([⟨.text text, []⟩], names)

/-- The answers of a program, one for each statement. In the beginning no name stands for
anything. -/
def answers (config : Config) (program : List Statement) : List Answer :=
  (transduce (execute config) (fun _ => none) program).1

end Named

/-- The value that running the statement leaves behind, bound to its variable or put out at its
place. -/
def Execution.produced (config : Config) (x : Execution) : Option Value :=
  let machine := (x.session.machine.execute config x.statement).2
  match x.statement with
  | .assign _ target _ => target.id.bind machine.bindings.lookup
  | .out span _ => machine.output.find? span.start
  | .print span _ => machine.output.find? span.start

/-- The value that running the statement leaves behind, and what is reported on the way to it. -/
def Execution.answer (config : Config) (x : Execution) : Option Answer :=
  (x.produced config).map fun value => ⟨value, x.reports config⟩

/-- What a session makes of a statement: the statement as it is handed on if it passes the checker,
what the checker reports, and what running it gives. -/
structure Account where
  checked : Option Statement
  findings : Log
  answer : Option Answer

namespace Session

/-- The account of a statement that is fed to a session. -/
def account (config : Config) (session : Session) (s : Statement) : Account :=
  let handed := (session.checker.step (.statement s)).1
  { checked := (statements handed).head?
    findings := reports handed
    answer := (statements handed).head?.bind fun checked =>
      Execution.answer config ⟨session, checked⟩ }

/-- Takes one statement like `step` and gives its account. -/
def stepAccounted (config : Config) (session : Session) (s : Statement) :
    List Account × Session :=
  ([session.account config s], (session.step config (.statement s)).2)

/-- All that can become of a statement: it is rejected, which leaves at most new variables behind,
or it passes and is run. -/
inductive Settles (config : Config) (session : Session) : Account → Session → Prop where
  | rejected (findings : Log) (more : Array Variable) :
      Settles config session ⟨none, findings, none⟩
        ⟨⟨session.checker.declared ++ more, session.checker.globals⟩, session.machine⟩
  | passed {checked : Statement} {checker : Checker} (findings : Log)
      (h : session.checker.Passed checked checker) :
      Settles config session ⟨some checked, findings, Execution.answer config ⟨session, checked⟩⟩
        ⟨checker, (session.machine.execute config checked).2⟩

theorem settles_account (config : Config) (session : Session) (s : Statement) :
    session.Settles config (session.account config s) (session.stepAccounted config s).2 := by
  have hTakes := session.takes_step config (.statement s)
  rw [stepExecuted] at hTakes
  simp only [account, stepAccounted]
  generalize (session.step config (.statement s)).2 = next at hTakes
  generalize hExecuted : (statements _).map (Execution.mk session) = executed at hTakes
  cases hTakes with
  | report =>
      rw [List.map_eq_nil_iff.mp hExecuted]
      simpa using Settles.rejected _ #[]
  | rejected more =>
      rw [List.map_eq_nil_iff.mp hExecuted]
      exact .rejected _ more
  | passed hPassed =>
      obtain ⟨s, hStatements, hSame⟩ := List.map_eq_singleton_iff.mp hExecuted
      cases hSame
      rw [hStatements]
      exact .passed _ hPassed

/-- What the global names of a session stand for. -/
def names (session : Session) : Names := fun name =>
  (session.checker.globals.lookup name).bind session.machine.bindings.lookup

theorem shows_names (session : Session) :
    session.checker.globals.Shows session.machine.bindings session.names := by
  intro name id hLookup
  simp [names, hLookup]

/-- What a statement does with variables that no name leads to cannot be seen. -/
theorem names_of_kept (session : Session) {types : Types}
    (hCover : Types.Cover types session.checker.globals) {after : Bindings}
    (hKept : Kept types session.machine.bindings after) (declared : Array Variable)
    (output : Output) :
    names ⟨⟨declared, session.checker.globals⟩, ⟨after, output⟩⟩ = session.names := by
  funext name
  simp only [names]
  cases hLookup : session.checker.globals.lookup name with
  | none => rfl
  | some id => exact hKept id (hCover name id hLookup)

/-- A new global variable changes what its name stands for, and nothing else. -/
theorem names_declare (session : Session) {types : Types}
    (hCover : Types.Cover types session.checker.globals) {after : Bindings}
    (hKept : Kept types session.machine.bindings after) {id : Nat} (hNew : types id = none)
    (name : String) (value : Value) (declared : Array Variable) (output : Output) :
    names ⟨⟨declared, session.checker.globals.declare name id⟩, ⟨after.bind id value, output⟩⟩ =
      Function.update session.names name (some value) := by
  have hShows := (session.shows_names.of_kept hCover hKept).bind hCover hNew name value
  funext other
  simp only [names]
  cases hLookup : (session.checker.globals.declare name id).lookup other with
  | some otherId => exact hShows other otherId hLookup
  | none =>
      rw [Scope.lookup_declare] at hLookup
      split at hLookup
      · cases hLookup
      · next hOther => simp [Function.update_of_ne hOther, names, hLookup]

end Session

/-- The accounts of the statements of a program. -/
def accounts (config : Config) (program : List Statement) : List Account :=
  (transduce (Session.stepAccounted config) Session.first program).1

/-- The global frame stands alone, and its names lead to declared variables, each at its own
number. -/
structure Checker.Ordered (checker : Checker) : Prop where
  flat : checker.globals.outer = []
  agrees : ∃ types, Agrees types checker.globals checker.declared

namespace Checker

theorem ordered_first : Checker.first.Ordered :=
  ⟨rfl, fun _ => none, fun _ _ h => (nomatch h), fun _ _ => rfl⟩

theorem Ordered.grow {checker : Checker} (h : checker.Ordered) (more : Array Variable) :
    Ordered ⟨checker.declared ++ more, checker.globals⟩ := by
  obtain ⟨hFlat, types, hAgrees⟩ := h
  exact ⟨hFlat, types, hAgrees.grow more⟩

theorem Ordered.passed {checker next : Checker} {s : Statement} (h : checker.Ordered)
    (hPassed : checker.Passed s next) : next.Ordered := by
  cases hPassed with
  | @assign span target value checked type final hValue hNew =>
      obtain ⟨more, rfl⟩ := hValue.grows (value.check_grows _)
      obtain ⟨hFlat, types, hAgrees⟩ := h
      exact ⟨hFlat, _, (hAgrees.grow more).declare target.name type⟩
  | @out span value checked type final hValue =>
      obtain ⟨more, rfl⟩ := hValue.grows (value.check_grows _)
      exact h.grow more
  | print => exact h

end Checker

theorem Output.find?_insert (location : Location) (value : Value) (output : Output) :
    (output.insert location value).find? location = some value := by
  induction output with
  | nil => simp [insert, find?]
  | cons entry rest ih =>
      obtain ⟨other, present⟩ := entry
      simp only [insert]
      split
      · simp [find?]
      · split
        · simp [find?]
        · next hOther =>
            simp only [find?, List.lookup_cons, beq_eq_false_iff_ne.mpr hOther]
            exact ih

namespace Session

/-- Running a statement that has passed the checker gives what it means by names, and makes the
names stand for the same. -/
theorem execute_named (config : Config) {session : Session} {s : Statement} {checker : Checker}
    (hOrdered : session.checker.Ordered) (hPassed : session.checker.Passed s checker) :
    ∃ answer, Execution.answer config ⟨session, s⟩ = some answer ∧
      Named.execute config session.names s =
        ([answer], names ⟨checker, (session.machine.execute config s).2⟩) := by
  obtain ⟨-, types, hAgrees⟩ := hOrdered
  cases hPassed with
  | @assign span target value checked type final hValue hNew =>
      have hPassed := Expr.passed_of_accepts hValue
      obtain ⟨more, rfl⟩ := hPassed.grows
      have hMatches := hPassed.means config hAgrees session.names _ session.shows_names
      have hUnknown := (hAgrees.grow more).unknown _ (Nat.le_refl _)
      have hNames := session.names_declare hAgrees.cover hMatches.kept hUnknown target.name
        (checked.named config session.names).value
      refine ⟨checked.named config session.names, ?_, ?_⟩
      · simp [Execution.answer, Execution.produced, Execution.reports, Machine.execute,
          Binding.resolved, Bindings.lookup_bind, hMatches.value, hMatches.reports]
      · simp only [Named.execute, Machine.execute, Binding.resolved, hMatches.value, hNames]
  | @out span value checked type final hValue =>
      have hMatches := (Expr.passed_of_accepts hValue).means config hAgrees session.names _
        session.shows_names
      refine ⟨checked.named config session.names, ?_, ?_⟩
      · simp [Execution.answer, Execution.produced, Execution.reports, Machine.execute,
          Output.find?_insert, hMatches.value, hMatches.reports]
      · simp only [Named.execute, Machine.execute,
          session.names_of_kept hAgrees.cover hMatches.kept]
  | @print span text =>
      refine ⟨⟨.text text, []⟩, ?_, rfl⟩
      simp [Execution.answer, Execution.produced, Execution.reports, Machine.execute,
        Output.find?_insert]

/-- From an ordered session on, the answers of the statements that pass are those of their
evaluation by names. -/
theorem filterMap_answer (config : Config) {session : Session}
    (hOrdered : session.checker.Ordered) (program : List Statement) :
    (transduce (stepAccounted config) session program).1.filterMap Account.answer =
      (transduce (Named.execute config) session.names
        ((transduce (stepAccounted config) session program).1.filterMap Account.checked)).1 := by
  induction program generalizing session with
  | nil => rfl
  | cons s program ih =>
      have hSettles := settles_account config session s
      rw [transduce_cons]
      generalize (session.stepAccounted config s).2 = next at hSettles ⊢
      rw [stepAccounted, List.singleton_append, List.filterMap_cons, List.filterMap_cons]
      generalize session.account config s = account at hSettles ⊢
      cases hSettles with
      | rejected findings more => exact ih (hOrdered.grow more)
      | passed findings hPassed =>
          obtain ⟨answer, hAnswer, hNamed⟩ := execute_named config hOrdered hPassed
          simp only [hAnswer, transduce_cons, hNamed, List.singleton_append]
          rw [ih (hOrdered.passed hPassed)]

end Session

/-- All statements that pass the checker, one after the other, produce the values and the reports of
their evaluation by names. -/
theorem answers_eq_named (config : Config) (program : List Statement) :
    (accounts config program).filterMap Account.answer =
      Named.answers config ((accounts config program).filterMap Account.checked) :=
  Session.filterMap_answer config Checker.ordered_first program

end Progression
