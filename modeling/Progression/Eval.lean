import Progression.Bindings
import Progression.Diagnostic

/-! Computations that give a value, report failures, and read and change bindings. Several of them
can be done in turn, each from the bindings that the one before left, or side by side, each from a
copy of the same bindings. -/

namespace Progression

/-- What a computation gives, what it reports, and the bindings that it leaves. -/
structure Outcome (α : Type) where
  value : α
  reports : Log
  bindings : Bindings

/-- A computation, given the bindings before it. Sequences are plain values to it: there is no store
in its state, and no buffer is taken or given back (see `Value.Store`). -/
def Eval (α : Type) : Type := Bindings → Outcome α

namespace Eval

variable {α β : Type}

/-- A computation that only gives a value. -/
def give (a : α) : Eval α := fun bindings => ⟨a, [], bindings⟩

/-- Goes on with the value of a computation. -/
def andThen (first : Eval α) (next : α → Eval β) : Eval β := fun bindings =>
  let one := first bindings
  let two := next one.value one.bindings
  ⟨two.value, one.reports ++ two.reports, two.bindings⟩

instance : Monad Eval where
  pure := give
  bind := andThen

/-- Reports a failure. -/
def report (cause : RuntimeError) (span : Span) : Eval Unit := fun bindings =>
  ⟨(), [⟨.runtime cause, span, none⟩], bindings⟩

/-- Reports a failure and gives the error value. -/
def fail (cause : RuntimeError) (span : Span) : Eval Value := do
  report cause span
  give .error

/-- Gives a result, or reports why there is none. -/
def settle (span : Span) : Except RuntimeError Value → Eval Value
  | .ok value => give value
  | .error cause => fail cause span

/-- The value of a variable; the error value if the variable has none or is not known. -/
def read (target : Option Nat) : Eval Value := fun bindings =>
  ⟨(target.bind bindings.lookup).getD .error, [], bindings⟩

/-- Binds a variable. -/
def bind (id : Nat) (value : Value) : Eval Unit := fun bindings => ⟨(), [], bindings.bind id value⟩

/-- Releases a variable. -/
def release (id : Nat) : Eval Unit := fun bindings => ⟨(), [], bindings.release id⟩

/-- Does a task for one more item after others. -/
def eachStep (task : α → Eval β) (state : Array (Outcome β) × Bindings) (item : α) :
    Array (Outcome β) × Bindings :=
  let outcome := task item state.2
  (state.1.push outcome, outcome.bindings)

/-- Does a task for every item in turn, each from the bindings that the one before left. -/
def each (task : α → Eval β) (items : List α) : Eval (List β) := fun bindings =>
  let (outcomes, final) := items.foldl (eachStep task) (#[], bindings)
  ⟨outcomes.toList.map Outcome.value, outcomes.toList.flatMap Outcome.reports, final⟩

/-- Folds one more item into a value. -/
def foldStep (step : β → α → Eval β) (state : β × Array Log × Bindings) (item : α) :
    β × Array Log × Bindings :=
  let outcome := step state.1 item state.2.2
  (outcome.value, state.2.1.push outcome.reports, outcome.bindings)

/-- Folds items into a value in turn, each from the bindings that the one before left. -/
def fold (step : β → α → Eval β) (start : β) (items : List α) : Eval β := fun bindings =>
  let (value, logs, final) := items.foldl (foldStep step) (start, #[], bindings)
  ⟨value, logs.toList.flatten, final⟩

/-- Does a task for every item side by side, each from a copy of the present bindings, which stay as
they are. Values and reports are in the order of the items. -/
def fork (task : α → Eval β) (items : List α) : Eval (List β) := fun bindings =>
  let outcomes := items.map fun item => task item bindings
  ⟨outcomes.map Outcome.value, outcomes.flatMap Outcome.reports, bindings⟩

theorem pure_apply (a : α) (bindings : Bindings) :
    (pure a : Eval α) bindings = ⟨a, [], bindings⟩ := rfl

theorem bind_apply (first : Eval α) (next : α → Eval β) (bindings : Bindings) :
    (first >>= next) bindings =
      ⟨(next (first bindings).value (first bindings).bindings).value,
        (first bindings).reports ++ (next (first bindings).value (first bindings).bindings).reports,
        (next (first bindings).value (first bindings).bindings).bindings⟩ := rfl

theorem foldl_eachStep (task : α → Eval β) (items : List α) (done : Array (Outcome β))
    (bindings : Bindings) :
    items.foldl (eachStep task) (done, bindings) =
      (done ++ (items.foldl (eachStep task) (#[], bindings)).1,
        (items.foldl (eachStep task) (#[], bindings)).2) := by
  induction items generalizing done bindings with
  | nil => simp
  | cons item items ih =>
      simp only [List.foldl_cons, eachStep]
      rw [ih, ih (#[].push _)]
      simp

@[simp] theorem each_nil (task : α → Eval β) (bindings : Bindings) :
    each task [] bindings = ⟨[], [], bindings⟩ := rfl

theorem each_cons (task : α → Eval β) (item : α) (items : List α) (bindings : Bindings) :
    each task (item :: items) bindings =
      ⟨(task item bindings).value :: (each task items (task item bindings).bindings).value,
        (task item bindings).reports ++ (each task items (task item bindings).bindings).reports,
        (each task items (task item bindings).bindings).bindings⟩ := by
  simp only [each, List.foldl_cons]
  rw [eachStep, foldl_eachStep]
  simp

theorem foldl_foldStep (step : β → α → Eval β) (items : List α) (start : β) (done : Array Log)
    (bindings : Bindings) :
    items.foldl (foldStep step) (start, done, bindings) =
      ((items.foldl (foldStep step) (start, #[], bindings)).1,
        done ++ (items.foldl (foldStep step) (start, #[], bindings)).2.1,
        (items.foldl (foldStep step) (start, #[], bindings)).2.2) := by
  induction items generalizing start done bindings with
  | nil => simp
  | cons item items ih =>
      simp only [List.foldl_cons, foldStep]
      rw [ih, ih _ (#[].push _)]
      simp

@[simp] theorem fold_nil (step : β → α → Eval β) (start : β) (bindings : Bindings) :
    fold step start [] bindings = ⟨start, [], bindings⟩ := rfl

theorem fold_cons (step : β → α → Eval β) (start : β) (item : α) (items : List α)
    (bindings : Bindings) :
    fold step start (item :: items) bindings =
      ⟨(fold step (step start item bindings).value items (step start item bindings).bindings).value,
        (step start item bindings).reports ++
          (fold step (step start item bindings).value items
            (step start item bindings).bindings).reports,
        (fold step (step start item bindings).value items
          (step start item bindings).bindings).bindings⟩ := by
  simp only [fold, List.foldl_cons]
  rw [foldStep, foldl_foldStep]
  simp

@[simp] theorem fork_bindings (task : α → Eval β) (items : List α) (bindings : Bindings) :
    (fork task items bindings).bindings = bindings := rfl

end Eval

end Progression
