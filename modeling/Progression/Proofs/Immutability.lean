import Progression.Proofs.Resolution
import Progression.Proofs.Sequential

/-! Variables are not changed once they are bound. Evaluating an expression leaves all bindings as
they were, apart from the variables of its `reduce` lambdas, which it may release; and the checker
gives lambdas no variable that is already in use, so nothing that is read later in a session touches
the value of an assignment. -/

namespace Progression

/-- The variables of the lambda, if the expression is a `reduce`. -/
def Expr.foldVariables : Expr → List Nat
  | reduce _ _ _ accumulator element _ => accumulator.id.toList ++ element.id.toList
  | _ => []

/-- The variables of the lambdas of all `reduce` expressions inside an expression. -/
def Expr.scratch (e : Expr) : List Nat := e.nodes.flatMap Expr.foldVariables

/-- Every variable is bound as before, or it is one of `released` and has no value, or it is one of
`working` and nothing is said about it. -/
def Bindings.Spared (released working : List Nat) (before after : Bindings) : Prop :=
  ∀ id, after.lookup id = before.lookup id ∨ (id ∈ released ∧ after.lookup id = none) ∨
    id ∈ working

namespace Bindings.Spared

variable {released working : List Nat} {first middle last : Bindings}

theorem refl (released working : List Nat) (bindings : Bindings) :
    Spared released working bindings bindings := fun _ => .inl rfl

theorem trans (h : Spared released working first middle)
    (hNext : Spared released working middle last) : Spared released working first last := by
  intro id
  rcases hNext id with hSame | hRest
  · rw [hSame]
    exact h id
  · exact .inr hRest

theorem mono {more others : List Nat} (h : Spared released working first last)
    (hReleased : released ⊆ more) (hWorking : working ⊆ others) : Spared more others first last := by
  intro id
  rcases h id with hSame | ⟨hMem, hNone⟩ | hMem
  · exact .inl hSame
  · exact .inr (.inl ⟨hReleased hMem, hNone⟩)
  · exact .inr (.inr (hWorking hMem))

theorem bind (h : Spared released working first last) {id : Nat} (hMem : id ∈ working)
    (value : Value) : Spared released working first (last.bind id value) := by
  intro other
  rw [lookup_bind]
  split
  · next hSame => exact .inr (.inr (hSame ▸ hMem))
  · exact h other

end Bindings.Spared

/-- Whatever the bindings, the computation leaves them as they are, apart from variables that it
releases and from `working` ones. -/
def Eval.Spares {α : Type} (released working : List Nat) (computation : Eval α) : Prop :=
  ∀ bindings, Bindings.Spared released working bindings (computation bindings).bindings

namespace Eval.Spares

variable {α β : Type} {released working : List Nat}

theorem of_same {computation : Eval α}
    (h : ∀ bindings, (computation bindings).bindings = bindings) :
    Spares released working computation := by
  intro bindings
  rw [h]
  exact .refl _ _ _

theorem bind {first : Eval α} {next : α → Eval β} (hFirst : Spares released working first)
    (hNext : ∀ a, Spares released working (next a)) :
    Spares released working (first >>= next) :=
  fun bindings => (hFirst bindings).trans (hNext _ _)

theorem mono {more : List Nat} {computation : Eval α} (h : Spares released working computation)
    (hSubset : released ⊆ more) : Spares more working computation :=
  fun bindings => (h bindings).mono hSubset (List.Subset.refl _)

theorem settle (span : Span) (op : Operator) (a b : Value) :
    Spares released working (Eval.settle span (op.apply a b)) := by
  apply of_same
  intro bindings
  rw [settle_eq]
  rfl

theorem range (config : Config) (span lowerSpan upperSpan : Span) (lower upper : Value) :
    Spares released working (Eval.range config span lowerSpan upperSpan lower upper) := by
  apply of_same
  intro bindings
  rw [range_eq]
  rfl

section Fold

variable {accumulator element : Nat} {body : Eval Value} (hBody : Spares released [] body)

include hBody

theorem combine (a b : Value) :
    Spares released [accumulator, element] (Eval.combine accumulator element body a b) := by
  intro bindings
  unfold Eval.combine
  split
  · exact .refl _ _ _
  · have hFirst : accumulator ∈ [accumulator, element] := by simp
    have hSecond : element ∈ [accumulator, element] := by simp
    have hBound := ((Bindings.Spared.refl released _ bindings).bind hFirst a).bind hSecond b
    exact hBound.trans ((hBody _).mono (List.Subset.refl _) (List.nil_subset _))

theorem fold (start : Value) (items : List Value) :
    Spares released [accumulator, element]
      (Eval.fold (Eval.combine accumulator element body) start items) := by
  induction items generalizing start with
  | nil => exact of_same fun _ => rfl
  | cons item items ih =>
      intro bindings
      rw [fold_cons]
      exact (combine hBody start item bindings).trans (ih _ _)

/-- The variables of the lambda have no value afterwards, whether it was applied or not. -/
theorem reduce (config : Config) (base : Value) (elements : List Value) :
    Spares ([accumulator, element] ++ released) []
      (Eval.reduce config accumulator element body base elements) := by
  intro bindings id
  simp only [Eval.reduce, bind_apply, fork_bindings, Eval.release, give,
    Bindings.lookup_release]
  -- What the slices came to plays no part: folding any values leaves the bindings alone.
  generalize (fork _ _ bindings).value = partials
  have hFold : Spares released [accumulator, element] _ := fold hBody base partials
  by_cases hElement : id = element
  · exact .inr (.inl ⟨by simp [hElement], if_pos hElement⟩)
  · rw [if_neg hElement]
    by_cases hAccumulator : id = accumulator
    · exact .inr (.inl ⟨by simp [hAccumulator], if_pos hAccumulator⟩)
    · rw [if_neg hAccumulator]
      rcases hFold bindings id with hSame | ⟨hMem, hNone⟩ | hWorking
      · exact .inl hSame
      · exact .inr (.inl ⟨by simp [hMem], hNone⟩)
      · simp [hElement, hAccumulator] at hWorking

end Fold

end Eval.Spares

namespace Expr

variable (mark : Mark)

@[simp] theorem scratch_binary (op : Operator) (left right : Expr) :
    (binary mark op left right).scratch = left.scratch ++ right.scratch := by
  simp [scratch, nodes, foldVariables]

@[simp] theorem scratch_paren (inner : Expr) : (paren mark inner).scratch = inner.scratch := by
  simp [scratch, nodes, foldVariables]

@[simp] theorem scratch_range (lower upper : Expr) :
    (range mark lower upper).scratch = lower.scratch ++ upper.scratch := by
  simp [scratch, nodes, foldVariables]

@[simp] theorem scratch_map (argument : Expr) (param : Binding) (body : Expr) :
    (map mark argument param body).scratch = argument.scratch ++ body.scratch := by
  simp [scratch, nodes, foldVariables]

@[simp] theorem scratch_reduce (sequence base : Expr) (accumulator element : Binding)
    (body : Expr) :
    (reduce mark sequence base accumulator element body).scratch =
      accumulator.id.toList ++ element.id.toList ++
        (sequence.scratch ++ (base.scratch ++ body.scratch)) := by
  simp [scratch, nodes, foldVariables]

end Expr

/-- Evaluating an expression releases at most the variables of its folds and changes no other. -/
theorem Expr.eval_spares (config : Config) (e : Expr) :
    Eval.Spares e.scratch [] (e.eval config) := by
  induction e with
  | int | float | ref => exact .of_same fun _ => rfl
  | binary mark op left right ihLeft ihRight =>
      exact (ihLeft.mono (by simp)).bind fun a => (ihRight.mono (by simp)).bind fun b =>
        .settle mark.span op a b
  | paren mark inner ih => exact ih.mono (by simp)
  | range mark lower upper ihLower ihUpper =>
      exact (ihLower.mono (by simp)).bind fun a => (ihUpper.mono (by simp)).bind fun b =>
        .range config mark.span _ _ a b
  | map mark argument param body ihArgument _ =>
      refine (ihArgument.mono (by simp)).bind fun value => ?_
      -- The body is worked on in copies of the bindings, which are dropped.
      split
      · exact .of_same fun _ => rfl
      · exact .of_same fun _ => rfl
  | reduce mark sequence base accumulator element body ihSequence ihBase ihBody =>
      have hParts : base.scratch ⊆ (reduce mark sequence base accumulator element body).scratch ∧
          sequence.scratch ⊆ (reduce mark sequence base accumulator element body).scratch := by
        constructor <;> intro id hMem <;> simp [hMem]
      refine (ihBase.mono hParts.1).bind fun start => (ihSequence.mono hParts.2).bind fun value => ?_
      split
      · next elements a e hAccumulator hElement =>
          split
          · exact .of_same fun _ => rfl
          · refine (ihBody.reduce config start elements).mono ?_
            intro id hMem
            rw [scratch_reduce, hAccumulator, hElement]
            rcases List.mem_append.mp hMem with hLambda | hBody
            · exact List.mem_append_left _ hLambda
            · simp [hBody]
      · exact .of_same fun _ => rfl

/-- The variables of folds are variables of names that lambdas introduce. -/
theorem Expr.exists_binding_of_mem_scratch {e : Expr} {id : Nat} (h : id ∈ e.scratch) :
    ∃ b ∈ e.bindings, b.id = some id := by
  induction e with
  | int | float | ref => simp [scratch, nodes, foldVariables] at h
  | binary mark op left right ihFirst ihSecond | range mark left right ihFirst ihSecond =>
      rcases List.mem_append.mp (by simpa using h) with hLeft | hRight
      · exact (ihFirst hLeft).imp fun b hB => ⟨by simp [bindings, hB.1], hB.2⟩
      · exact (ihSecond hRight).imp fun b hB => ⟨by simp [bindings, hB.1], hB.2⟩
  | paren mark inner ih => exact ih (by simpa using h)
  | map mark argument param body ihArgument ihBody =>
      rcases List.mem_append.mp (by simpa using h) with hArgument | hBody
      · exact (ihArgument hArgument).imp fun b hB => ⟨by simp [bindings, hB.1], hB.2⟩
      · exact (ihBody hBody).imp fun b hB => ⟨by simp [bindings, hB.1], hB.2⟩
  | reduce mark sequence base accumulator element body ihSequence ihBase ihBody =>
      simp only [scratch_reduce, List.mem_append, Option.mem_toList] at h
      rcases h with (hAccumulator | hElement) | hSequence | hBase | hBody
      · exact ⟨accumulator, by simp [bindings], hAccumulator⟩
      · exact ⟨element, by simp [bindings], hElement⟩
      · exact (ihSequence hSequence).imp fun b hB => ⟨by simp [bindings, hB.1], hB.2⟩
      · exact (ihBase hBase).imp fun b hB => ⟨by simp [bindings, hB.1], hB.2⟩
      · exact (ihBody hBody).imp fun b hB => ⟨by simp [bindings, hB.1], hB.2⟩

namespace Checker.Passed

variable {checker next : Checker} {s : Statement}

/-- Running a statement that has passed the checker leaves all variables as they are that were
declared before it. -/
theorem execute_lookup (config : Config) (machine : Machine) (h : checker.Passed s next) {id : Nat}
    (hOld : id < checker.declared.size) :
    (machine.execute config s).2.bindings.lookup id = machine.bindings.lookup id := by
  -- The names that the statement introduces have later variables.
  have hEval (e : Expr) (hLambdas : e.bindings ⊆ s.bindings) :
      (e.eval config machine.bindings).bindings.lookup id = machine.bindings.lookup id := by
    rcases e.eval_spares config machine.bindings id with hSame | ⟨hMem, -⟩ | hNone
    · exact hSame
    · obtain ⟨b, hBinding, hId⟩ := Expr.exists_binding_of_mem_scratch hMem
      obtain ⟨other, hOther, hLater⟩ := h.ascending.exists_id b (hLambdas hBinding)
      rw [hId, Option.some_inj] at hOther
      omega
    · cases hNone
  cases h with
  | @assign span target value checked type final hValue hNew =>
      obtain ⟨more, rfl⟩ := hValue.grows (value.check_grows _)
      have hOther : id ≠ (checker.declared ++ more).size := by
        rw [Array.size_append]
        omega
      simp only [Machine.execute, Binding.resolved, Bindings.lookup_bind, if_neg hOther]
      exact hEval checked (by simp [Statement.bindings, Statement.value?])
  | out hValue => exact hEval _ (by simp [Statement.bindings, Statement.value?])
  | print => rfl

end Checker.Passed

namespace Session

/-- The session when it has taken the events. -/
def afterEvents (config : Config) (events : List Event) : Session :=
  (transduce (step config) Session.first events).2

theorem after_eq_afterEvents (config : Config) (sources : List String) :
    Session.after config sources = afterEvents config (sources.flatMap parse) := by
  rw [after_eq, transduce_stepExecuted, afterEvents]

/-- The variable is one of the declared ones and bound to the value. -/
structure Holds (session : Session) (id : Nat) (value : Value) : Prop where
  declared : id < session.checker.declared.size
  bound : session.machine.bindings.lookup id = some value

variable {config : Config} {session : Session} {id : Nat} {value : Value}

theorem Takes.holds {next : Session} {executed : List Execution}
    (h : session.Takes config executed next) (hHolds : session.Holds id value) :
    next.Holds id value := by
  obtain ⟨hDeclared, hBound⟩ := hHolds
  cases h with
  | report => exact ⟨hDeclared, hBound⟩
  | rejected more => exact ⟨by simp only [Array.size_append]; omega, hBound⟩
  | passed hPassed =>
      obtain ⟨more, hMore⟩ := hPassed.grows
      refine ⟨?_, ?_⟩
      · rw [hMore, Array.size_append]
        omega
      · rw [hPassed.execute_lookup config session.machine hDeclared, hBound]

/-- Whatever a session goes on to take, it holds on to the values of its variables. -/
theorem Holds.transduce (config : Config) (h : session.Holds id value) (events : List Event) :
    (Progression.transduce (step config) session events).2.Holds id value := by
  induction events generalizing session with
  | nil => exact h
  | cons event events ih => exact ih ((session.takes_step config event).holds h)

/-- An assignment that passes the checker binds a new variable to the value of its right side. -/
theorem holds_assign (config : Config) {s : Statement} {span : Span} {target : Binding} {e : Expr}
    (h : statements (session.checker.step (.statement s)).1 = [.assign span target e]) :
    ∃ id, target.id = some id ∧ (session.step config (.statement s)).2.Holds id
      (e.eval config session.machine.bindings).value := by
  have hTakes := session.takes_step config (.statement s)
  rw [stepExecuted, h, List.map_singleton] at hTakes
  generalize (session.step config (.statement s)).2 = next at hTakes ⊢
  cases hTakes with
  | passed hPassed =>
      cases hPassed with
      | @assign _ _ _ _ type final hValue hNew =>
          refine ⟨final.size, rfl, by simp, ?_⟩
          simp [Machine.execute, Binding.resolved, Bindings.lookup_bind]

end Session

/-- Variables are immutable. Once an assignment that passes the checker has bound its variable to the
value of its right side, the variable is bound to that value whatever is taken afterwards, from the
same text or a later one: statements that pass or are rejected, that fail or not. And whatever
expression is evaluated from whatever bindings, each variable is bound afterwards as it was before, or
it belongs to the lambda of a `reduce` inside the expression and has no value. -/
theorem bindings_immutable (config : Config) :
    (∀ sources, Session.after config sources =
      Session.afterEvents config (sources.flatMap parse)) ∧
    (∀ (before : List Event) (s : Statement) (span : Span) (target : Binding) (value : Expr),
      statements ((Session.afterEvents config before).checker.step (.statement s)).1 =
          [.assign span target value] →
        ∃ id, target.id = some id ∧ ∀ later,
          (Session.afterEvents config
              (before ++ .statement s :: later)).machine.bindings.lookup id =
            some (value.eval config (Session.afterEvents config before).machine.bindings).value) ∧
    ∀ (e : Expr) (bindings : Bindings) (id : Nat),
      (e.eval config bindings).bindings.lookup id = bindings.lookup id ∨
        id ∈ e.scratch ∧ (e.eval config bindings).bindings.lookup id = none := by
  refine ⟨Session.after_eq_afterEvents config, ?_, ?_⟩
  · intro before s span target value hPasses
    obtain ⟨id, hId, hHolds⟩ := Session.holds_assign config hPasses
    refine ⟨id, hId, fun later => ?_⟩
    have hLater := (hHolds.transduce config later).bound
    rw [Session.afterEvents, transduce_append]
    exact hLater
  · intro e bindings id
    simpa using e.eval_spares config bindings id

/-- The first text binds `x` to 2. In the second, lambdas introduce other variables of this name, a
`reduce` releases its own, another declaration of `x` is rejected, and a division fails. -/
theorem bindings_immutable_shadowed :
    ∃ (config : Config) (sources : List String) (s : Statement) (later : List Event)
      (span : Span) (target : Binding) (value : Expr),
      sources = ["var x = 2",
        "out reduce({1, 3}, x, x y -> x + y) var x = 1 out map({1, x}, x -> x / 0)"] ∧
      sources.flatMap parse = .statement s :: later ∧ later.length = 3 ∧
      statements (Checker.first.step (.statement s)).1 = [.assign span target value] ∧
      target.name = "x" ∧ target.id = some 0 ∧
      (Session.after config sources).machine.bindings.lookup 0 = some (.int 2) := by
  have hSplit : ["var x = 2",
        "out reduce({1, 3}, x, x y -> x + y) var x = 1 out map({1, x}, x -> x / 0)"].flatMap parse =
      .statement ((statements (parse "var x = 2")).head (by decide +kernel)) ::
        parse "out reduce({1, 3}, x, x y -> x + y) var x = 1 out map({1, x}, x -> x / 0)" := by
    decide +kernel
  have hPasses : statements (Checker.first.step
        (.statement ((statements (parse "var x = 2")).head (by decide +kernel)))).1 =
      [.assign ⟨⟨1, 1⟩, ⟨1, 10⟩⟩ ⟨"x", ⟨⟨1, 5⟩, ⟨1, 6⟩⟩, some 0⟩
        (.int ⟨⟨⟨1, 9⟩, ⟨1, 10⟩⟩, some .number⟩ 2)] := by
    decide +kernel
  obtain ⟨hAfter, hImmutable, -⟩ := bindings_immutable (Config.ofWorkers 2)
  obtain ⟨id, hId, hBound⟩ := hImmutable [] _ _ _ _ hPasses
  cases hId
  have hEnd := hBound
    (parse "out reduce({1, 3}, x, x y -> x + y) var x = 1 out map({1, x}, x -> x / 0)")
  rw [List.nil_append, ← hSplit, ← hAfter] at hEnd
  exact ⟨_, _, _, _, _, _, _, rfl, hSplit, by decide +kernel, hPasses, rfl, rfl, hEnd⟩

end Progression
