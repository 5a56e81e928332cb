import Mathlib.Data.List.TakeWhile
import Progression.Proofs.Executions
import Progression.Proofs.Soundness

/-! Sessions whose folds are uniform: what a checked statement evaluates to has the recorded type, or
is an error that has been reported. -/

namespace Progression

/-- Whether the base of every `reduce` in the statement has the type of the elements. -/
def Statement.uniform (s : Statement) : Bool := s.value?.all Expr.uniform

/-- Whether the value of the statement's expression is the error value or has the shape of the type
that is recorded on the expression. -/
def Execution.fits (config : Config) (x : Execution) : Bool :=
  match x.statement.value? with
  | none => true
  | some e =>
      match e.type with
      | none => false
      | some type =>
          let value := (e.eval config x.session.machine.bindings).value
          value.isError || type.admits value

/-- The statement puts out the error value at the location. -/
def Execution.FailsAt (config : Config) (x : Execution) (location : Location) : Prop :=
  ∃ span e, x.statement = .out span e ∧ span.start = location ∧
    (e.eval config x.session.machine.bindings).value = .error

/-- Checker and machine of a session fit together, and every error value that is bound or put out has
been reported by one of the statements run so far. -/
structure Session.Coherent (config : Config) (history : List Execution) (types : Types)
    (session : Session) : Prop where
  agrees : Agrees types session.checker.globals session.checker.declared
  flat : session.checker.globals.outer = []
  global : ∀ id, types id ≠ none → ∃ name, session.checker.globals.lookup name = some id
  models : Models types session.machine.bindings
  explained : ∀ id, types id ≠ none → session.machine.bindings.lookup id = some .error →
    ∃ y ∈ history, Reported (y.reports config)
  traced : ∀ location, (location, .error) ∈ session.machine.output →
    ∃ before x after, history = before ++ x :: after ∧ x.FailsAt config location ∧
      ∃ y ∈ before ++ [x], Reported (y.reports config)

theorem Scope.lookup_eq_none {scope : Scope} {name : String} (hFlat : scope.outer = [])
    (h : scope.declares name = false) : scope.lookup name = none := by
  rw [Scope.declares, Option.isSome_eq_false_iff, Option.isNone_iff_eq_none] at h
  rw [Scope.lookup, hFlat, List.findSome?_cons, h, List.findSome?_nil]

theorem Output.mem_insert {location : Location} {value : Value} {output : Output}
    {entry : Location × Value} (h : entry ∈ output.insert location value) :
    entry = (location, value) ∨ entry ∈ output := by
  induction output with
  | nil => exact Or.inl (List.mem_singleton.mp h)
  | cons head rest ih =>
      rw [Output.insert] at h
      split at h
      · exact List.mem_cons.mp h
      · split at h
        · rcases List.mem_cons.mp h with hEntry | hMem
          · exact Or.inl hEntry
          · exact Or.inr (List.mem_cons_of_mem _ hMem)
        · rcases List.mem_cons.mp h with rfl | hMem
          · exact Or.inr (List.mem_cons_self)
          · exact (ih hMem).imp_right (List.mem_cons_of_mem _)

namespace Session

variable {config : Config} {history : List Execution} {types : Types} {session : Session}

theorem coherent_first (config : Config) : Coherent config [] (fun _ => none) Session.first where
  agrees := ⟨fun _ _ h => (nomatch h), fun _ _ => rfl⟩
  flat := rfl
  global := fun _ h => absurd rfl h
  models := fun _ _ h => nomatch h
  explained := fun _ h => absurd rfl h
  traced := fun _ h => nomatch h

namespace Coherent

/-- The value of a checked expression in a coherent session. -/
theorem sound (h : Coherent config history types session) {value checked : Expr} {type : Ty}
    {final : Array Variable}
    (hValue : (value.check session.checker.globals).Accepts session.checker.declared
      (type, checked) final) (hUniform : checked.uniform = true) :
    Sound types checked.references type False session.machine.bindings
      (checked.eval config session.machine.bindings) :=
  (Expr.check_typed h.agrees hValue).sound config hUniform _ h.models

/-- If an expression fails, its statement or one before has reported it. -/
theorem answered (h : Coherent config history types session) {x : Execution} {references : List Nat}
    {type : Ty} {outcome : Outcome Value}
    (hSound : Sound types references type False session.machine.bindings outcome)
    (hReports : x.reports config = outcome.reports) (hError : outcome.value = .error) :
    ∃ y ∈ history ++ [x], Reported (y.reports config) := by
  rcases hSound.blame hError with hReported | ⟨id, -, hType, hLookup⟩ | hNone
  · exact ⟨x, by simp, by rwa [hReports]⟩
  · obtain ⟨y, hMem, hReported⟩ := h.explained id hType hLookup
    exact ⟨y, by simp [hMem], hReported⟩
  · exact hNone.elim

theorem traced_append (h : Coherent config history types session) (more : List Execution)
    {location : Location} (hMem : (location, .error) ∈ session.machine.output) :
    ∃ before x after, history ++ more = before ++ x :: after ∧ x.FailsAt config location ∧
      ∃ y ∈ before ++ [x], Reported (y.reports config) := by
  obtain ⟨before, x, after, rfl, hRest⟩ := h.traced location hMem
  exact ⟨before, x, after ++ more, by simp, hRest⟩

theorem explained_append (h : Coherent config history types session) (more : List Execution)
    {id : Nat} (hType : types id ≠ none)
    (hLookup : session.machine.bindings.lookup id = some .error) :
    ∃ y ∈ history ++ more, Reported (y.reports config) := by
  obtain ⟨y, hMem, hReported⟩ := h.explained id hType hLookup
  exact ⟨y, by simp [hMem], hReported⟩

/-- An assignment makes its variable known, with the type and the value of its expression. -/
theorem assign (h : Coherent config history types session) {span : Span} {target : Binding}
    {value checked : Expr} {type : Ty} {final : Array Variable}
    (hValue : (value.check session.checker.globals).Accepts session.checker.declared
      (type, checked) final)
    (hNew : session.checker.globals.declares target.name = false)
    (hUniform : checked.uniform = true) :
    Coherent config
      (history ++ [⟨session, .assign span (target.resolved final.size) checked⟩])
      (Function.update types final.size (some type))
      ⟨⟨final.push ⟨final.size, target.name, type⟩,
          session.checker.globals.declare target.name final.size⟩,
        (session.machine.execute config (.assign span (target.resolved final.size) checked)).2⟩ := by
  have hSound := h.sound hValue hUniform
  obtain ⟨more, rfl⟩ := hValue.grows (value.check_grows _)
  constructor
  · exact (h.agrees.grow more).declare target.name type
  · exact h.flat
  · intro id hType
    by_cases hSame : id = (session.checker.declared ++ more).size
    · exact ⟨target.name, by rw [Scope.lookup_declare, if_pos rfl, hSame]⟩
    · rw [Function.update_of_ne hSame] at hType
      obtain ⟨name, hLookup⟩ := h.global id hType
      refine ⟨name, ?_⟩
      have hOther : name ≠ target.name := by
        rintro rfl
        rw [Scope.lookup_eq_none h.flat hNew] at hLookup
        cases hLookup
      rw [Scope.lookup_declare, if_neg hOther, hLookup]
  · exact (h.models.of_kept hSound.kept).bind hSound.shape
  · intro id hType hLookup
    simp only [Machine.execute, Binding.resolved, Bindings.lookup_bind] at hLookup
    by_cases hSame : id = (session.checker.declared ++ more).size
    · rw [if_pos hSame] at hLookup
      exact h.answered hSound rfl (Option.some.inj hLookup)
    · rw [if_neg hSame] at hLookup
      rw [Function.update_of_ne hSame] at hType
      rw [hSound.kept id hType] at hLookup
      exact h.explained_append _ hType hLookup
  · exact fun location hMem => h.traced_append _ hMem

/-- Putting out a value changes no variable. -/
theorem out (h : Coherent config history types session) {span : Span} {value checked : Expr}
    {type : Ty} {final : Array Variable}
    (hValue : (value.check session.checker.globals).Accepts session.checker.declared
      (type, checked) final) (hUniform : checked.uniform = true) :
    Coherent config (history ++ [⟨session, .out span checked⟩]) types
      ⟨⟨final, session.checker.globals⟩,
        (session.machine.execute config (.out span checked)).2⟩ := by
  have hSound := h.sound hValue hUniform
  obtain ⟨more, rfl⟩ := hValue.grows (value.check_grows _)
  constructor
  · exact h.agrees.grow more
  · exact h.flat
  · exact h.global
  · exact h.models.of_kept hSound.kept
  · intro id hType hLookup
    rw [Machine.execute, hSound.kept id hType] at hLookup
    exact h.explained_append _ hType hLookup
  · intro location hMem
    rcases Output.mem_insert hMem with hEntry | hMem
    · obtain ⟨rfl, hError⟩ := Prod.mk.inj hEntry
      exact ⟨history, _, [], rfl, ⟨span, checked, rfl, rfl, hError.symm⟩,
        h.answered hSound rfl hError.symm⟩
    · exact h.traced_append _ hMem

theorem print (h : Coherent config history types session) (span : Span) (text : String) :
    Coherent config (history ++ [⟨session, .print span text⟩]) types
      ⟨session.checker, (session.machine.execute config (.print span text)).2⟩ := by
  refine ⟨h.agrees, h.flat, h.global, h.models, ?_, ?_⟩
  · exact fun id hType hLookup => h.explained_append _ hType hLookup
  · intro location hMem
    rcases Output.mem_insert hMem with hEntry | hMem
    · cases (Prod.mk.inj hEntry).2
    · exact h.traced_append _ hMem

/-- One event keeps a session coherent, as long as the folds are uniform. -/
theorem takes (h : Coherent config history types session) {executed : List Execution}
    {next : Session} (hTakes : session.Takes config executed next)
    (hUniform : ∀ x ∈ executed, x.statement.uniform = true) :
    ∃ types', Coherent config (history ++ executed) types' next := by
  cases hTakes with
  | report => exact ⟨types, by rwa [List.append_nil]⟩
  | rejected more =>
      refine ⟨types, h.agrees.grow more, h.flat, h.global, h.models, ?_, ?_⟩
      · exact fun id hType hLookup => h.explained_append _ hType hLookup
      · exact fun location hMem => h.traced_append _ hMem
  | passed hPassed =>
      have hThis := hUniform _ (List.mem_singleton.mpr rfl)
      cases hPassed with
      | assign hValue hNew => exact ⟨_, h.assign hValue hNew hThis⟩
      | out hValue => exact ⟨_, h.out hValue hThis⟩
      | print => exact ⟨_, h.print _ _⟩

end Coherent

/-- Every session that was reached with uniform folds only is coherent. -/
theorem coherent_run (config : Config) (events : List Event)
    (hUniform : ∀ x ∈ (transduce (stepExecuted config) Session.first events).1,
      x.statement.uniform = true) :
    ∃ types, Coherent config (transduce (stepExecuted config) Session.first events).1 types
      (transduce (stepExecuted config) Session.first events).2 := by
  have hStep (history : List Execution) (session : Session) (event : Event)
      (hBefore : (∀ x ∈ history, x.statement.uniform = true) →
        ∃ types, Coherent config history types session)
      (hAll : ∀ x ∈ history ++ (session.stepExecuted config event).1,
        x.statement.uniform = true) :
      ∃ types, Coherent config (history ++ (session.stepExecuted config event).1) types
        (session.stepExecuted config event).2 := by
    obtain ⟨types, hCoherent⟩ := hBefore fun x hMem => hAll x (by simp [hMem])
    exact hCoherent.takes (session.takes_step config event) fun x hMem => hAll x (by simp [hMem])
  have hRun := transduce_history _ hStep events (fun _ => ⟨_, coherent_first config⟩)
  exact hRun hUniform

end Session

/-- What is known of the expression of a statement, if the folds in it and in all statements before
it are uniform. -/
theorem execution_sound {config : Config} {sources : List String} {before after : List Execution}
    {x : Execution} (hRun : executions config sources = before ++ x :: after)
    (hUniform : ∀ y ∈ before ++ [x], y.statement.uniform = true) {e : Expr}
    (hValue : x.statement.value? = some e) :
    ∃ types type, x.session.Coherent config before types ∧ e.type = some type ∧
      Sound types e.references type False x.session.machine.bindings
        (e.eval config x.session.machine.bindings) := by
  obtain ⟨events, hBefore, hSession, checker, hPassed⟩ := executions_split hRun
  obtain ⟨types, hCoherent⟩ := Session.coherent_run config events fun y hMem =>
    hUniform y (by rw [hBefore] at hMem; simp [hMem])
  rw [hBefore, hSession] at hCoherent
  obtain ⟨value, type, final, hAccepts⟩ := hPassed.accepts hValue
  have hThis : e.uniform = true := by
    have h := hUniform x (by simp)
    rwa [Statement.uniform, hValue, Option.all_some] at h
  exact ⟨types, type, hCoherent, (Expr.check_typed hCoherent.agrees hAccepts).type_eq,
    hCoherent.sound hAccepts hThis⟩

theorem Execution.fits_iff {config : Config} {x : Execution} :
    x.fits config = true ↔ ∀ e, x.statement.value? = some e →
      ∃ type, e.type = some type ∧ (e.eval config x.session.machine.bindings).value.Fits type := by
  rw [Execution.fits]
  cases x.statement.value? with
  | none => simp
  | some e =>
      cases hType : e.type with
      | none => simp [hType]
      | some type => simp [hType, Value.Fits, Value.isError_iff]

/-- Up to the first statement in which a `reduce` begins with a value of another type than its
elements, every expression evaluates to a value of its recorded type or to the error value. -/
theorem fits_while_uniform (config : Config) (sources : List String) :
    ∀ x ∈ (executions config sources).takeWhile (fun y => y.statement.uniform),
      x.fits config = true := by
  intro x hMem
  obtain ⟨before, rest, hTake⟩ := List.append_of_mem hMem
  have hRun : executions config sources = before ++ x :: (rest ++
      (executions config sources).dropWhile (fun y => y.statement.uniform)) := by
    rw [← List.cons_append, ← List.append_assoc, ← hTake, List.takeWhile_append_dropWhile]
  have hUniform : ∀ y ∈ before ++ [x], y.statement.uniform = true := by
    intro y hY
    have hTaken : y ∈ before ++ x :: rest := by simpa using List.mem_append_left rest hY
    rw [← hTake] at hTaken
    have hHolds := List.mem_takeWhile_imp hTaken
    exact hHolds
  rw [Execution.fits_iff]
  intro e hValue
  obtain ⟨types, type, -, hType, hSound⟩ := execution_sound hRun hUniform hValue
  exact ⟨type, hType, hSound.shape⟩

/-- Two program texts whose four statements are run, the last with a fold of sequences inside a
lambda. -/
theorem fits_while_uniform_nested :
    ((executions (Config.ofWorkers 2) ["var n = 3 var s = map({1, n}, x -> {x, n})",
        "out n out map(s, r -> reduce(s, r, a b -> map(a, y -> y + 1)))"]).takeWhile
          (fun y => y.statement.uniform)).length = 4 ∧
      ∀ x ∈ (executions (Config.ofWorkers 2) ["var n = 3 var s = map({1, n}, x -> {x, n})",
        "out n out map(s, r -> reduce(s, r, a b -> map(a, y -> y + 1)))"]).takeWhile
          (fun y => y.statement.uniform), x.fits (Config.ofWorkers 2) = true :=
  ⟨by decide +kernel, fits_while_uniform _ _⟩

/-- A fold that begins with a sequence and goes over numbers is accepted as a sequence of numbers.
The only slice is folded to a sequence, which then takes the place of a number. -/
theorem mixed_reduce_not_fits :
    ¬∀ x ∈ executions (Config.ofWorkers 1)
        ["out reduce({1, 2}, {0, 0}, a b -> map({1, 2}, x -> b))"],
      x.fits (Config.ofWorkers 1) = true := by
  decide +kernel

/-- In a session all of whose folds are uniform no failure is silent: an expression that gives the
error value reports it or refers to a global variable that is bound to it, and an error in the output
has been reported by its statement or by one before. -/
theorem failure_reported (config : Config) (sources : List String)
    (hUniform : ∀ x ∈ executions config sources, x.statement.uniform = true) :
    (∀ x ∈ executions config sources, x.fits config = true ∧
      ∀ e, x.statement.value? = some e →
        (e.eval config x.session.machine.bindings).value = .error →
          Reported (e.eval config x.session.machine.bindings).reports ∨
            ∃ name id, x.session.checker.globals.lookup name = some id ∧ id ∈ e.references ∧
              x.session.machine.bindings.lookup id = some .error) ∧
      ∀ location, (location, .error) ∈ (Session.after config sources).machine.output →
        ∃ before x after, executions config sources = before ++ x :: after ∧
          x.FailsAt config location ∧ ∃ y ∈ before ++ [x], Reported (y.reports config) := by
  constructor
  · intro x hMem
    obtain ⟨before, after, hRun⟩ := List.append_of_mem hMem
    have hBefore : ∀ y ∈ before ++ [x], y.statement.uniform = true := by
      intro y hY
      apply hUniform
      rw [hRun]
      simpa using List.mem_append_left after hY
    refine ⟨Execution.fits_iff.mpr fun e hValue => ?_, fun e hValue hError => ?_⟩
    · obtain ⟨types, type, -, hType, hSound⟩ := execution_sound hRun hBefore hValue
      exact ⟨type, hType, hSound.shape⟩
    · obtain ⟨types, type, hCoherent, -, hSound⟩ := execution_sound hRun hBefore hValue
      rcases hSound.blame hError with hReported | ⟨id, hReference, hType, hLookup⟩ | hNone
      · exact Or.inl hReported
      · obtain ⟨name, hGlobal⟩ := hCoherent.global id hType
        exact Or.inr ⟨name, id, hGlobal, hReference, hLookup⟩
      · exact hNone.elim
  · obtain ⟨types, hCoherent⟩ := Session.coherent_run config _ hUniform
    rw [← Session.after_eq] at hCoherent
    exact hCoherent.traced

/-- The quotient fails in the first text; the second text puts out what depends on it, and an
ordinary value. -/
theorem failure_reported_division :
    ∃ sources, sources = ["var q = 1 / 0", "out reduce({1, 3}, q, a b -> a + b) out 2"] ∧
      (executions (Config.ofWorkers 2) sources).map (fun x => x.statement.uniform) =
        [true, true, true] ∧
      (Session.after (Config.ofWorkers 2) sources).machine.output.map (fun entry =>
        entry.2.isError) = [true, false] ∧
      ∀ location, (location, .error) ∈
          (Session.after (Config.ofWorkers 2) sources).machine.output →
        ∃ before x after, executions (Config.ofWorkers 2) sources = before ++ x :: after ∧
          x.FailsAt (Config.ofWorkers 2) location ∧
            ∃ y ∈ before ++ [x], Reported (y.reports (Config.ofWorkers 2)) :=
  ⟨_, rfl, by decide +kernel, by decide +kernel,
    (failure_reported (Config.ofWorkers 2)
      ["var q = 1 / 0", "out reduce({1, 3}, q, a b -> a + b) out 2"] (by decide +kernel)).2⟩

end Progression
