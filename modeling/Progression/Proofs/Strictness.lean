import Progression.Proofs.Safety

/-! Failure is strict. An expression that reports something gives the error value, whether it was
checked or not and in however many slices it is evaluated; and no sequence that comes about in this
way holds an error value, at any depth. -/

namespace Progression

namespace Value

mutual

/-- Whether no error value is inside the value, at any depth. Nothing is inside the error value. -/
def intact : Value → Bool
  | sequence elements => intactElements elements
  | _ => true

/-- Whether no value of the list is the error value or has one inside. -/
def intactElements : List Value → Bool
  | [] => true
  | value :: values => !value.isError && value.intact && intactElements values

end

theorem intactElements_iff {values : List Value} :
    intactElements values = true ↔ ∀ v ∈ values, v ≠ .error ∧ v.intact = true := by
  induction values with
  | nil => simp [intactElements]
  | cons value values ih =>
      rw [intactElements, Bool.and_eq_true, Bool.and_eq_true, Bool.not_eq_true', ih,
        List.forall_mem_cons, ← Bool.not_eq_true, isError_iff]

/-- A sequence is intact if its elements are and none of them is the error value. -/
theorem intact_sequence {elements : List Value} :
    (sequence elements).intact = true ↔ ∀ v ∈ elements, v ≠ .error ∧ v.intact = true := by
  rw [intact, intactElements_iff]

/-- A value of one of the types holds no error value. -/
theorem intact_of_admits {type : Ty} {value : Value} (h : type.admits value = true) :
    value.intact = true := by
  induction type generalizing value with
  | number =>
      obtain ⟨i, rfl⟩ | ⟨f, rfl⟩ := Ty.admits_number h
      · rfl
      · rfl
  | sequence element ih =>
      obtain ⟨elements, rfl, hElements⟩ := Ty.admits_sequence h
      rw [intact_sequence]
      exact fun v hMem => ⟨Ty.ne_error_of_admits (hElements v hMem), ih (hElements v hMem)⟩

end Value

/-- What an operator gives holds no error value. -/
theorem Operator.intact_of_apply {op : Operator} {a b value : Value}
    (h : op.apply a b = .ok value) : value.intact = true := by
  unfold apply at h
  split at h
  · exact Value.intact_of_admits (onInts_admits h)
  · exact Value.intact_of_admits (onFloats_admits h)
  · exact Value.intact_of_admits (onFloats_admits h)
  · exact Value.intact_of_admits (onFloats_admits h)
  · cases h
    rfl

namespace Bindings

/-- No variable is bound to a sequence with an error value inside. A variable may well be bound to
the error value itself. -/
def Intact (bindings : Bindings) : Prop :=
  ∀ id value, bindings.lookup id = some value → value.intact = true

theorem intact_empty : Bindings.empty.Intact := by
  intro id value hLookup
  simp [empty, lookup] at hLookup

variable {bindings : Bindings}

theorem Intact.bind (h : bindings.Intact) (id : Nat) {value : Value}
    (hValue : value.intact = true) : (bindings.bind id value).Intact := by
  intro other found hLookup
  rw [lookup_bind] at hLookup
  split at hLookup
  · cases hLookup
    exact hValue
  · exact h other found hLookup

theorem Intact.release (h : bindings.Intact) (id : Nat) : (bindings.release id).Intact := by
  intro other found hLookup
  rw [lookup_release] at hLookup
  split at hLookup
  · cases hLookup
  · exact h other found hLookup

end Bindings

/-- Whatever the bindings, the computation gives the error value if it reports something. -/
def Eval.Strict (computation : Eval Value) : Prop :=
  ∀ bindings, (computation bindings).reports ≠ [] → (computation bindings).value = .error

/-- From intact bindings the computation gives an intact value, and it leaves intact bindings. -/
def Eval.Keeps (computation : Eval Value) : Prop :=
  ∀ bindings, bindings.Intact →
    (computation bindings).value.intact = true ∧ (computation bindings).bindings.Intact

namespace Eval.Strict

theorem of_silent {computation : Eval Value} (h : ∀ bindings, (computation bindings).reports = []) :
    Strict computation := fun bindings hReports => absurd (h bindings) hReports

theorem of_error {computation : Eval Value}
    (h : ∀ bindings, (computation bindings).value = .error) : Strict computation :=
  fun bindings _ => h bindings

/-- Going on from a failure has to give the error value. -/
theorem bind {first : Eval Value} {next : Value → Eval Value} (hFirst : Strict first)
    (hNext : ∀ value, Strict (next value)) (hPass : ∀ bindings, (next .error bindings).value = .error) :
    Strict (first >>= next) := by
  intro bindings hReports
  rw [bind_apply] at hReports ⊢
  by_cases hOne : (first bindings).reports = []
  · rw [hOne] at hReports
    exact hNext _ _ hReports
  · simp only [hFirst bindings hOne]
    exact hPass _

theorem settle (span : Span) (result : Except RuntimeError Value) :
    Strict (Eval.settle span result) := by
  cases result with
  | ok value => exact of_silent fun _ => rfl
  | error cause => exact of_error fun _ => rfl

theorem ints (config : Config) (span : Span) (lower upper : Int64) :
    Strict (Eval.ints config span lower upper) := by
  unfold Eval.ints
  split
  · exact of_error fun _ => rfl
  · dsimp only
    split
    · exact of_silent fun _ => rfl
    · exact of_error fun _ => rfl

theorem range (config : Config) (span lowerSpan upperSpan : Span) (lower upper : Value) :
    Strict (Eval.range config span lowerSpan upperSpan lower upper) := by
  unfold Eval.range
  split
  · exact of_error fun _ => rfl
  · exact of_error fun _ => rfl
  · exact ints config span _ _
  · exact of_error fun _ => rfl

/-- If tasks done in turn report something, one of them fails. -/
theorem each {α : Type} {task : α → Eval Value} (hTask : ∀ item, Strict (task item))
    (items : List α) {bindings : Bindings} (h : (Eval.each task items bindings).reports ≠ []) :
    .error ∈ (Eval.each task items bindings).value := by
  induction items generalizing bindings with
  | nil => exact absurd rfl h
  | cons item items ih =>
      rw [each_cons] at h ⊢
      by_cases hOne : (task item bindings).reports = []
      · rw [hOne] at h
        exact List.mem_cons_of_mem _ (ih h)
      · rw [hTask item bindings hOne]
        exact List.mem_cons_self

/-- What tasks on copies of the bindings report, one of them reports. -/
theorem exists_of_fork {α β : Type} {task : α → Eval β} {items : List α} {bindings : Bindings}
    (h : (fork task items bindings).reports ≠ []) :
    ∃ item ∈ items, (task item bindings).reports ≠ [] := by
  by_contra hNone
  apply h
  simp only [fork, List.flatMap_map, List.flatMap_eq_nil_iff]
  intro item hItem
  by_contra hReports
  exact hNone ⟨item, hItem, hReports⟩

theorem map (config : Config) (id : Nat) {body : Eval Value} (hBody : Strict body)
    (elements : List Value) : Strict (Eval.map config id body elements) := by
  intro bindings hReports
  have hApply (element : Value) : Strict (applyTo id body element) := fun _ => hBody _
  simp only [Eval.map, bind_apply, give, List.append_nil] at hReports ⊢
  obtain ⟨part, hPart, hSlice⟩ := exists_of_fork hReports
  apply if_pos
  rw [List.any_eq_true]
  refine ⟨.error, List.mem_flatten.mpr ⟨_, ?_, each hApply part.2 hSlice⟩, rfl⟩
  simp only [fork, List.map_map]
  exact List.mem_map_of_mem hPart

section Fold

variable {step : Value → Value → Eval Value}
  (hLeft : ∀ y bindings, (step .error y bindings).value = .error)

include hLeft

/-- A fold that has failed stays so. -/
theorem fold_error (items : List Value) (bindings : Bindings) :
    (Eval.fold step .error items bindings).value = .error := by
  induction items generalizing bindings with
  | nil => rfl
  | cons item items ih =>
      rw [fold_cons, hLeft]
      exact ih _

/-- A fold fails if one of the items has failed. -/
theorem fold_mem_error (hRight : ∀ x bindings, (step x .error bindings).value = .error)
    {items : List Value} (h : .error ∈ items) (start : Value) (bindings : Bindings) :
    (Eval.fold step start items bindings).value = .error := by
  induction items generalizing start bindings with
  | nil => cases h
  | cons item items ih =>
      rw [fold_cons]
      rcases List.mem_cons.mp h with rfl | hMem
      · rw [hRight]
        exact fold_error hLeft items _
      · exact ih hMem _ _

theorem fold (hStep : ∀ x y, Strict (step x y)) (start : Value) (items : List Value) :
    Strict (Eval.fold step start items) := by
  induction items generalizing start with
  | nil => exact of_silent fun _ => rfl
  | cons item items ih =>
      intro bindings hReports
      rw [fold_cons] at hReports ⊢
      by_cases hOne : (step start item bindings).reports = []
      · rw [hOne] at hReports
        exact ih _ _ hReports
      · rw [hStep start item bindings hOne]
        exact fold_error hLeft items _

theorem foldSlice (hStep : ∀ x y, Strict (step x y)) (values : List Value) :
    Strict (Eval.foldSlice step values) := by
  cases values with
  | nil => exact of_error fun _ => rfl
  | cons first rest => exact fold hLeft hStep first rest

end Fold

section Combine

variable (accumulator element : Nat) (body : Eval Value)

theorem combine_error_left (y : Value) (bindings : Bindings) :
    (Eval.combine accumulator element body .error y bindings).value = .error := rfl

theorem combine_error_right (x : Value) (bindings : Bindings) :
    (Eval.combine accumulator element body x .error bindings).value = .error := by
  cases x <;> rfl

variable {body}

theorem combine (hBody : Strict body) (x y : Value) :
    Strict (Eval.combine accumulator element body x y) := by
  unfold Eval.combine
  split
  · exact of_error fun _ => rfl
  · exact fun _ => hBody _

/-- What a slice reports makes its result fail, and with it the fold over the slices. -/
theorem reduce (hBody : Strict body) (config : Config) (base : Value) (elements : List Value) :
    Strict (Eval.reduce config accumulator element body base elements) := by
  intro bindings hReports
  simp only [Eval.reduce, bind_apply, release, give, List.append_nil, fork_bindings] at hReports ⊢
  have hLeft := combine_error_left accumulator element body
  have hStep := combine accumulator element hBody
  by_cases hParts : (fork (fun part => Eval.foldSlice (Eval.combine accumulator element body)
      part.2) (split elements config.workers) bindings).reports = []
  · rw [hParts] at hReports
    exact fold hLeft hStep base _ bindings hReports
  · obtain ⟨part, hPart, hSlice⟩ := exists_of_fork hParts
    apply fold_mem_error hLeft (combine_error_right accumulator element body)
    rw [← foldSlice hLeft hStep part.2 bindings hSlice]
    simp only [fork, List.map_map]
    exact List.mem_map_of_mem hPart

end Combine

end Eval.Strict

/-- Evaluating an expression gives the error value if it reports something. -/
theorem Expr.eval_strict (config : Config) (e : Expr) : Eval.Strict (e.eval config) := by
  induction e with
  | int | float | ref => exact .of_silent fun _ => rfl
  | binary mark op left right ihLeft ihRight =>
      refine ihLeft.bind (fun a => ihRight.bind (fun b => .settle _ _) ?_) fun _ => rfl
      intro bindings
      cases a <;> rfl
  | paren mark inner ih => exact ih
  | range mark lower upper ihLower ihUpper =>
      refine ihLower.bind (fun a => ihUpper.bind (fun b => .range config _ _ _ a b) ?_) fun _ => rfl
      intro bindings
      cases a <;> rfl
  | map mark argument param body ihArgument ihBody =>
      refine ihArgument.bind (fun value => ?_) fun _ => rfl
      split
      · exact .map config _ ihBody _
      · exact .of_error fun _ => rfl
  | reduce mark sequence base accumulator element body ihSequence ihBase ihBody =>
      refine ihBase.bind (fun start => ihSequence.bind (fun value => ?_) fun _ => rfl) ?_
      · split
        · split
          · exact .of_error fun _ => rfl
          · exact .reduce _ _ ihBody config start _
        · exact .of_error fun _ => rfl
      · intro bindings
        rw [Eval.bind_apply]
        generalize (sequence.eval config bindings).value = value
        cases value with
        | sequence elements =>
            cases accumulator.id <;> cases element.id <;> rfl
        | int | float | text | error => rfl

/-- An expression with an ordinary value has reported nothing. -/
theorem Expr.reports_eq_nil {config : Config} {e : Expr} {bindings : Bindings}
    (h : (e.eval config bindings).value ≠ .error) : (e.eval config bindings).reports = [] := by
  by_contra hReports
  exact h (e.eval_strict config bindings hReports)

namespace Eval.Keeps

theorem pure {value : Value} (h : value.intact = true) : Keeps (Pure.pure value) :=
  fun _ hBindings => ⟨h, hBindings⟩

theorem fail (cause : RuntimeError) (span : Span) : Keeps (Eval.fail cause span) :=
  fun _ hBindings => ⟨rfl, hBindings⟩

theorem read (target : Option Nat) : Keeps (Eval.read target) := by
  intro bindings hBindings
  refine ⟨?_, hBindings⟩
  cases hLookup : target.bind bindings.lookup with
  | none => simp [Eval.read, hLookup, Value.intact]
  | some value =>
      obtain ⟨id, -, hFound⟩ := Option.bind_eq_some_iff.mp hLookup
      simpa [Eval.read, hLookup] using hBindings id value hFound

theorem bind {first : Eval Value} {next : Value → Eval Value} (hFirst : Keeps first)
    (hNext : ∀ value, value.intact = true → Keeps (next value)) : Keeps (first >>= next) := by
  intro bindings hBindings
  obtain ⟨hValue, hMiddle⟩ := hFirst bindings hBindings
  exact hNext _ hValue _ hMiddle

theorem settle (span : Span) (op : Operator) (a b : Value) :
    Keeps (Eval.settle span (op.apply a b)) := by
  cases hApply : op.apply a b with
  | ok value => exact pure (Operator.intact_of_apply hApply)
  | error cause => exact fail cause span

theorem ints (config : Config) (span : Span) (lower upper : Int64) :
    Keeps (Eval.ints config span lower upper) := by
  unfold Eval.ints
  split
  · exact fail _ _
  · dsimp only
    split
    · apply pure
      rw [Value.intact_sequence]
      intro v hMem
      obtain ⟨slice, -, hSlice⟩ := List.mem_flatMap.mp hMem
      have hInt : ∃ i, v = .int i := by
        unfold rangeSlice at hSlice
        split at hSlice
        · obtain ⟨k, -, hValue⟩ := List.mem_map.mp hSlice
          exact ⟨_, hValue.symm⟩
        · exact ⟨_, List.eq_of_mem_replicate hSlice⟩
      obtain ⟨i, rfl⟩ := hInt
      exact ⟨by simp, rfl⟩
    · exact fail _ _

theorem range (config : Config) (span lowerSpan upperSpan : Span) (lower upper : Value) :
    Keeps (Eval.range config span lowerSpan upperSpan lower upper) := by
  unfold Eval.range
  split
  · exact pure rfl
  · exact pure rfl
  · exact ints config span _ _
  · intro bindings hBindings
    simp only [bind_apply, checkBound_bindings]
    exact ⟨rfl, hBindings⟩

theorem each {α : Type} {task : α → Eval Value} (items : List α)
    (hTask : ∀ item ∈ items, Keeps (task item)) {bindings : Bindings} (h : bindings.Intact) :
    ∀ v ∈ (Eval.each task items bindings).value, v.intact = true := by
  induction items generalizing bindings with
  | nil => simp
  | cons item items ih =>
      obtain ⟨hValue, hNext⟩ := hTask item List.mem_cons_self bindings h
      rw [each_cons, List.forall_mem_cons]
      exact ⟨hValue, ih (fun other hOther => hTask other (List.mem_cons_of_mem _ hOther)) hNext⟩

section Lambda

variable {body : Eval Value} (hBody : Keeps body)

include hBody

theorem applyTo (id : Nat) {value : Value} (hValue : value.intact = true) :
    Keeps (Eval.applyTo id body value) :=
  fun _ hBindings => hBody _ (hBindings.bind id hValue)

/-- A failure for one element fails the whole, so none is left inside. -/
theorem map (config : Config) (id : Nat) {elements : List Value}
    (hElements : ∀ v ∈ elements, v.intact = true) : Keeps (Eval.map config id body elements) := by
  intro bindings hBindings
  refine ⟨?_, hBindings⟩
  simp only [Eval.map, bind_apply, give]
  split
  · rfl
  · next hNone =>
      rw [Value.intact_sequence]
      intro v hMem
      refine ⟨?_, ?_⟩
      · rintro rfl
        exact hNone (List.any_eq_true.mpr ⟨_, hMem, rfl⟩)
      · obtain ⟨values, hValues, hMem⟩ := List.mem_flatten.mp hMem
        simp only [fork, List.map_map, List.mem_map] at hValues
        obtain ⟨part, hPart, rfl⟩ := hValues
        refine each part.2 (fun element hElement => hBody.applyTo id (hElements element ?_))
          hBindings v hMem
        rw [← flatMap_split elements config.workers_pos]
        exact List.mem_flatMap.mpr ⟨part, hPart, hElement⟩

theorem combine (accumulator element : Nat) {x y : Value} (hX : x.intact = true)
    (hY : y.intact = true) : Keeps (Eval.combine accumulator element body x y) := by
  unfold Eval.combine
  split
  · exact pure rfl
  · exact fun bindings hBindings => hBody _ ((hBindings.bind accumulator hX).bind element hY)

end Lambda

section Fold

variable {step : Value → Value → Eval Value}
  (hStep : ∀ x y, x.intact = true → y.intact = true → Keeps (step x y))

include hStep

theorem fold {start : Value} (hStart : start.intact = true) (items : List Value)
    (hItems : ∀ v ∈ items, v.intact = true) : Keeps (Eval.fold step start items) := by
  induction items generalizing start with
  | nil => exact fun _ hBindings => ⟨hStart, hBindings⟩
  | cons item items ih =>
      intro bindings hBindings
      obtain ⟨hItem, hRest⟩ := List.forall_mem_cons.mp hItems
      obtain ⟨hValue, hNext⟩ := hStep start item hStart hItem bindings hBindings
      rw [fold_cons]
      exact ih hValue hRest _ hNext

theorem foldSlice (values : List Value) (hValues : ∀ v ∈ values, v.intact = true) :
    Keeps (Eval.foldSlice step values) := by
  cases values with
  | nil => exact pure rfl
  | cons first rest =>
      obtain ⟨hFirst, hRest⟩ := List.forall_mem_cons.mp hValues
      exact fold hStep hFirst rest hRest

end Fold

theorem reduce (config : Config) (accumulator element : Nat) {body : Eval Value}
    (hBody : Keeps body) {base : Value} (hBase : base.intact = true) {elements : List Value}
    (hElements : ∀ v ∈ elements, v.intact = true) :
    Keeps (Eval.reduce config accumulator element body base elements) := by
  intro bindings hBindings
  have hStep (x y : Value) (hX : x.intact = true) (hY : y.intact = true) :=
    combine hBody accumulator element hX hY
  have hParts : ∀ v ∈ (fork (fun part => Eval.foldSlice (Eval.combine accumulator element body)
      part.2) (split elements config.workers) bindings).value, v.intact = true := by
    intro v hMem
    simp only [fork, List.map_map, List.mem_map] at hMem
    obtain ⟨part, hPart, rfl⟩ := hMem
    refine (foldSlice hStep part.2 (fun w hW => hElements w ?_) bindings hBindings).1
    rw [← flatMap_split elements config.workers_pos]
    exact List.mem_flatMap.mpr ⟨part, hPart, hW⟩
  obtain ⟨hValue, hFinal⟩ := fold hStep hBase _ hParts bindings hBindings
  exact ⟨hValue, (hFinal.release accumulator).release element⟩

end Eval.Keeps

/-- From intact bindings an expression evaluates to an intact value. -/
theorem Expr.eval_keeps (config : Config) (e : Expr) : Eval.Keeps (e.eval config) := by
  induction e with
  | int | float => exact .pure rfl
  | ref mark name target => exact .read target
  | binary mark op left right ihLeft ihRight =>
      exact ihLeft.bind fun a _ => ihRight.bind fun b _ => .settle mark.span op a b
  | paren mark inner ih => exact ih
  | range mark lower upper ihLower ihUpper =>
      exact ihLower.bind fun a _ => ihUpper.bind fun b _ => .range config mark.span _ _ a b
  | map mark argument param body ihArgument ihBody =>
      refine ihArgument.bind fun value hValue => ?_
      split
      · next elements id _ =>
          rw [Value.intact_sequence] at hValue
          exact ihBody.map config id fun v hMem => (hValue v hMem).2
      · exact .pure rfl
  | reduce mark sequence base accumulator element body ihSequence ihBase ihBody =>
      refine ihBase.bind fun start hStart => ihSequence.bind fun value hValue => ?_
      split
      · next elements a e _ _ =>
          rw [Value.intact_sequence] at hValue
          split
          · exact .pure rfl
          · exact .reduce config a e ihBody hStart fun v hMem => (hValue v hMem).2
      · exact .pure rfl

namespace Machine

/-- No sequence that is bound or has been put out holds an error value. -/
structure Intact (machine : Machine) : Prop where
  bindings : machine.bindings.Intact
  output : ∀ entry ∈ machine.output, entry.2.intact = true

theorem intact_first : Machine.first.Intact := ⟨Bindings.intact_empty, by simp [first]⟩

theorem Intact.insert {output : Output} (h : ∀ entry ∈ output, entry.2.intact = true)
    (location : Location) {value : Value} (hValue : value.intact = true) :
    ∀ entry ∈ output.insert location value, entry.2.intact = true := by
  intro entry hMem
  rcases Output.mem_insert hMem with rfl | hOld
  · exact hValue
  · exact h entry hOld

theorem Intact.execute {machine : Machine} (h : machine.Intact) (config : Config) (s : Statement) :
    (machine.execute config s).2.Intact := by
  cases s with
  | assign span target value =>
      obtain ⟨hValue, hBindings⟩ := value.eval_keeps config machine.bindings h.bindings
      refine ⟨?_, h.output⟩
      simp only [Machine.execute]
      split
      · exact hBindings.bind _ hValue
      · exact hBindings
  | out span value =>
      obtain ⟨hValue, hBindings⟩ := value.eval_keeps config machine.bindings h.bindings
      exact ⟨hBindings, Intact.insert h.output span.start hValue⟩
  | print span text => exact ⟨h.bindings, Intact.insert h.output span.start rfl⟩

theorem Intact.step {machine : Machine} (h : machine.Intact) (config : Config) (event : Event) :
    (machine.step config event).2.Intact := by
  cases event with
  | report d => exact h
  | statement s => exact h.execute config s

/-- However far a run has come, no sequence is partly failed. -/
theorem Intact.run {machine : Machine} (h : machine.Intact) (config : Config)
    (events : List Event) : (machine.run config events).2.Intact := by
  induction events generalizing machine with
  | nil => exact h
  | cons event events ih => exact ih (h.step config event)

end Machine

/-- The machine of a session has run what the checker handed on. -/
theorem Session.after_machine (config : Config) (sources : List String) :
    (Session.after config sources).machine =
      (Machine.first.run config (Checker.first.run (sources.flatMap parse)).1).2 := by
  rw [after_eq, transduce_stepExecuted, transduce_step]
  rfl

/-- A failure is never partial. From bindings without an error value inside a sequence, an expression
that reports something evaluates to the error value, and no expression evaluates to a sequence with
an error value inside. So whatever events a machine has taken, checked or not, the sequences that it
has bound and put out hold no error value, and a statement that reports something has an expression
that evaluates to the error value. -/
theorem failure_strict (config : Config) :
    (∀ (e : Expr) (bindings : Bindings), bindings.Intact →
      ((e.eval config bindings).reports ≠ [] → (e.eval config bindings).value = .error) ∧
        (e.eval config bindings).value.intact = true) ∧
    (∀ sources, (Session.after config sources).machine =
      (Machine.first.run config (Checker.first.run (sources.flatMap parse)).1).2) ∧
    ∀ (events : List Event) (s : Statement),
      (Machine.first.run config events).2.Intact ∧
        (((Machine.first.run config events).2.execute config s).1 ≠ [] →
          ∃ e, s.value? = some e ∧
            (e.eval config (Machine.first.run config events).2.bindings).value = .error) := by
  refine ⟨?_, Session.after_machine config, ?_⟩
  · intro e bindings hBindings
    exact ⟨e.eval_strict config bindings, (e.eval_keeps config bindings hBindings).1⟩
  · intro events s
    refine ⟨Machine.intact_first.run config events, fun hReports => ?_⟩
    cases s with
    | assign span target value => exact ⟨value, rfl, value.eval_strict config _ hReports⟩
    | out span value => exact ⟨value, rfl, value.eval_strict config _ hReports⟩
    | print span text => exact absurd rfl hReports

/-- One variable is bound to the error value and one to a sequence. The lambda divides by zero for the
last element of the sequence, on the second of two slices. -/
theorem failure_strict_last_element :
    ∃ (bindings : Bindings) (e : Expr), bindings.lookup 0 = some .error ∧
      bindings.lookup 1 = some (.sequence [.int 3, .int 2, .int 0]) ∧ bindings.Intact ∧
      e = .map ⟨⟨⟨1, 1⟩, ⟨1, 17⟩⟩, none⟩ (.ref ⟨⟨⟨1, 5⟩, ⟨1, 6⟩⟩, none⟩ "s" (some 1))
        ⟨"x", ⟨⟨1, 8⟩, ⟨1, 9⟩⟩, some 2⟩
        (.binary ⟨⟨⟨1, 13⟩, ⟨1, 16⟩⟩, none⟩ .div (.int ⟨⟨⟨1, 13⟩, ⟨1, 14⟩⟩, none⟩ 6)
          (.ref ⟨⟨⟨1, 15⟩, ⟨1, 16⟩⟩, none⟩ "x" (some 2))) ∧
      (e.eval (Config.ofWorkers 2) bindings).reports.length = 1 ∧
      (e.eval (Config.ofWorkers 2) bindings).value = .error := by
  have hBindings : ((Bindings.empty.bind 0 .error).bind 1
      (.sequence [.int 3, .int 2, .int 0])).Intact :=
    (Bindings.intact_empty.bind 0 rfl).bind 1 rfl
  refine ⟨_, _, rfl, rfl, hBindings, rfl, by decide +kernel, ?_⟩
  exact ((failure_strict (Config.ofWorkers 2)).1 _ _ hBindings).1 (by decide +kernel)

end Progression
