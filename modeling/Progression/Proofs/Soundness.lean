import Progression.Proofs.Slices
import Progression.Proofs.Typing

/-! Checked expressions evaluate to values of their types or fail, and a failure is never silent. The
slices of a `reduce` begin with an element where the whole begins with the base, so this is about
expressions in which the two have the same type. -/

namespace Progression

namespace Ty

/-- Whether a value has the shape that the type promises. -/
def admits : Ty → Value → Bool
  | number, .int _ => true
  | number, .float _ => true
  | sequence type, .sequence elements => elements.all type.admits
  | _, _ => false

theorem admits_number {value : Value} (h : number.admits value = true) :
    (∃ i, value = .int i) ∨ ∃ f, value = .float f := by
  cases value with
  | int i => exact Or.inl ⟨i, rfl⟩
  | float f => exact Or.inr ⟨f, rfl⟩
  | text | sequence | error => cases h

theorem admits_sequence {type : Ty} {value : Value} (h : (sequence type).admits value = true) :
    ∃ elements, value = .sequence elements ∧ ∀ v ∈ elements, type.admits v = true := by
  cases value with
  | sequence elements => exact ⟨elements, rfl, List.all_eq_true.mp h⟩
  | int | float | text | error => cases h

theorem ne_error_of_admits {type : Ty} {value : Value} (h : type.admits value = true) :
    value ≠ .error := by
  rintro rfl
  cases type <;> cases h

end Ty

/-- The value has the shape of the type, unless it is the error value. -/
def Value.Fits (value : Value) (type : Ty) : Prop := value = .error ∨ type.admits value = true

theorem Value.Fits.admits {value : Value} {type : Ty} (h : value.Fits type)
    (hValue : value ≠ .error) : type.admits value = true := h.resolve_left hValue

theorem Value.isError_iff {value : Value} : value.isError = true ↔ value = .error := by
  cases value <;> simp [Value.isError]

namespace Operator

theorem exactly_admits {op : Operator} {i : Option Int64} {value : Value}
    (h : op.exactly i = .ok value) : Ty.number.admits value = true := by
  cases i <;> cases h
  rfl

theorem onInts_admits {op : Operator} {a b : Int64} {value : Value}
    (h : op.onInts a b = .ok value) : Ty.number.admits value = true := by
  cases op with
  | add | sub | mul => exact exactly_admits h
  | div =>
      simp only [onInts, divideInts] at h
      split at h
      · cases h
      split at h
      · split at h
        · exact exactly_admits h
        · cases h
          rfl
      · cases h
  | pow =>
      simp only [onInts, raiseInts] at h
      split at h
      · cases h
        rfl
      split at h
      · exact exactly_admits h
      split at h
      · cases h
        rfl
      split at h
      · cases h
        rfl
      · cases h

theorem onFloats_admits {op : Operator} {a b : Float} {value : Value}
    (h : op.onFloats a b = .ok value) : Ty.number.admits value = true := by
  cases op with
  | add | sub | mul | pow =>
      cases h
      rfl
  | div =>
      simp only [onFloats] at h
      split at h <;> cases h
      rfl

/-- The operator on two numbers gives a number, if it gives anything. -/
theorem apply_admits {op : Operator} {a b value : Value} (hLeft : Ty.number.admits a = true)
    (hRight : Ty.number.admits b = true) (h : op.apply a b = .ok value) :
    Ty.number.admits value = true := by
  obtain ⟨i, rfl⟩ | ⟨f, rfl⟩ := Ty.admits_number hLeft
  · obtain ⟨j, rfl⟩ | ⟨g, rfl⟩ := Ty.admits_number hRight
    · exact onInts_admits h
    · exact onFloats_admits h
  · obtain ⟨j, rfl⟩ | ⟨g, rfl⟩ := Ty.admits_number hRight
    · exact onFloats_admits h
    · exact onFloats_admits h

end Operator

namespace Expr

/-- The variables that references in the expression stand for. -/
def references : Expr → List Nat
  | int _ _ => []
  | float _ _ => []
  | ref _ _ target => target.toList
  | binary _ _ left right => left.references ++ right.references
  | paren _ inner => inner.references
  | range _ lower upper => lower.references ++ upper.references
  | map _ argument _ body => argument.references ++ body.references
  | reduce _ sequence base _ _ body => base.references ++ (sequence.references ++ body.references)

/-- Whether the base of every `reduce` has the type of the elements. -/
def uniform : Expr → Bool
  | int _ _ => true
  | float _ _ => true
  | ref _ _ _ => true
  | binary _ _ left right => left.uniform && right.uniform
  | paren _ inner => inner.uniform
  | range _ lower upper => lower.uniform && upper.uniform
  | map _ argument _ body => argument.uniform && body.uniform
  | reduce _ sequence base _ _ body =>
      decide (sequence.type = base.type.map Ty.sequence) &&
        (sequence.uniform && (base.uniform && body.uniform))

end Expr

/-- A report of a failure at run time is among the diagnostics. -/
def Reported (log : Log) : Prop := ∃ d ∈ log, d.stage = .runtime

@[simp] theorem reported_append (first second : Log) :
    Reported (first ++ second) ↔ Reported first ∨ Reported second := by
  simp [Reported, or_and_right, exists_or]

/-- All variables with a type are bound, to a value of that type or to the error value. -/
def Models (types : Types) (bindings : Bindings) : Prop :=
  ∀ id type, types id = some type → ∃ value, bindings.lookup id = some value ∧ value.Fits type

/-- The variables with a type are bound as before. -/
def Kept (types : Types) (before after : Bindings) : Prop :=
  ∀ id, types id ≠ none → after.lookup id = before.lookup id

/-- One of the variables that are referred to is bound to the error value. -/
def Blamed (types : Types) (references : List Nat) (bindings : Bindings) : Prop :=
  ∃ id ∈ references, types id ≠ none ∧ bindings.lookup id = some .error

section Bindings

variable {types : Types} {references : List Nat} {first middle last : Bindings}

theorem Kept.refl (types : Types) (bindings : Bindings) : Kept types bindings bindings :=
  fun _ _ => rfl

theorem Kept.trans (h : Kept types first middle) (hNext : Kept types middle last) :
    Kept types first last := fun id hType => (hNext id hType).trans (h id hType)

theorem Models.of_kept (h : Models types first) (hKept : Kept types first last) :
    Models types last := by
  intro id type hType
  obtain ⟨value, hLookup, hFits⟩ := h id type hType
  exact ⟨value, by rw [hKept id (by simp [hType]), hLookup], hFits⟩

theorem Blamed.of_kept (h : Blamed types references last) (hKept : Kept types first last) :
    Blamed types references first := by
  obtain ⟨id, hMem, hType, hLookup⟩ := h
  exact ⟨id, hMem, hType, by rw [← hKept id hType, hLookup]⟩

theorem Blamed.mono {others : List Nat} (h : Blamed types references first)
    (hSubset : references ⊆ others) : Blamed types others first := by
  obtain ⟨id, hMem, hBound⟩ := h
  exact ⟨id, hSubset hMem, hBound⟩

/-- Binding a new variable to a value of its type makes the types with this variable hold. -/
theorem Models.bind (h : Models types first) {id : Nat} {type : Ty} {value : Value}
    (hValue : value.Fits type) :
    Models (Function.update types id (some type)) (first.bind id value) := by
  intro other otherType hType
  rw [Bindings.lookup_bind]
  by_cases hSame : other = id
  · subst hSame
    rw [Function.update_self] at hType
    cases hType
    exact ⟨value, if_pos rfl, hValue⟩
  · rw [Function.update_of_ne hSame] at hType
    rw [if_neg hSame]
    exact h other otherType hType

/-- A variable bound to an ordinary value is not to blame. -/
theorem Blamed.of_bind {id : Nat} {type : Ty} {value : Value} (hValue : value ≠ .error)
    (h : Blamed (Function.update types id (some type)) references (first.bind id value)) :
    Blamed types references first := by
  obtain ⟨other, hMem, hType, hLookup⟩ := h
  rw [Bindings.lookup_bind] at hLookup
  by_cases hSame : other = id
  · rw [if_pos hSame] at hLookup
    exact absurd (Option.some.inj hLookup) hValue
  · rw [if_neg hSame] at hLookup
    rw [Function.update_of_ne hSame] at hType
    exact ⟨other, hMem, hType, hLookup⟩

/-- What is kept after a new variable was bound is kept without it. -/
theorem Kept.of_bind {id : Nat} {type : Ty} {value : Value} (hNew : types id = none)
    (h : Kept (Function.update types id (some type)) (first.bind id value) last) :
    Kept types first last := by
  intro other hType
  have hOther : other ≠ id := by
    rintro rfl
    exact hType hNew
  rw [h other (by rwa [Function.update_of_ne hOther]), Bindings.lookup_bind, if_neg hOther]

theorem Kept.release (types : Types) (bindings : Bindings) {id : Nat} (hNew : types id = none) :
    Kept types bindings (bindings.release id) := by
  intro other hType
  have hOther : other ≠ id := by
    rintro rfl
    exact hType hNew
  rw [Bindings.lookup_release, if_neg hOther]

end Bindings

/-- What a computation owes to the bindings that it begins with: a value of the type or the error
value, the typed variables as before, and for the error value a report, a variable to blame or the
excuse that is given. -/
structure Sound (types : Types) (references : List Nat) (type : Ty) (excuse : Prop)
    (bindings : Bindings) (outcome : Outcome Value) : Prop where
  shape : outcome.value.Fits type
  kept : Kept types bindings outcome.bindings
  blame : outcome.value = .error →
    Reported outcome.reports ∨ Blamed types references bindings ∨ excuse

/-- The computation is sound from all bindings that fit the types. -/
def SoundFrom (types : Types) (references : List Nat) (type : Ty) (excuse : Prop)
    (computation : Eval Value) : Prop :=
  ∀ bindings, Models types bindings →
    Sound types references type excuse bindings (computation bindings)

/-- The same for computations of several values. -/
structure AllSound (types : Types) (references : List Nat) (type : Ty) (bindings : Bindings)
    (outcome : Outcome (List Value)) : Prop where
  shape : ∀ value ∈ outcome.value, value.Fits type
  kept : Kept types bindings outcome.bindings
  blame : .error ∈ outcome.value → Reported outcome.reports ∨ Blamed types references bindings

namespace SoundFrom

variable {types : Types} {references others : List Nat} {type other : Ty} {excuse : Prop}

theorem pure {value : Value} (hValue : value.Fits type) (hExcuse : value = .error → excuse) :
    SoundFrom types references type excuse (Pure.pure value) := by
  intro bindings _
  exact ⟨hValue, Kept.refl _ _, fun hError => Or.inr (Or.inr (hExcuse hError))⟩

theorem fail (cause : RuntimeError) (span : Span) :
    SoundFrom types references type excuse (Eval.fail cause span) := by
  intro bindings _
  exact ⟨Or.inl rfl, Kept.refl _ _, fun _ => Or.inl ⟨_, List.mem_singleton.mpr rfl, rfl⟩⟩

theorem weaken {computation : Eval Value} {broader : Prop}
    (h : SoundFrom types references type excuse computation) (hExcuse : excuse → broader) :
    SoundFrom types references type broader computation := by
  intro bindings hModels
  obtain ⟨shape, kept, blame⟩ := h bindings hModels
  exact ⟨shape, kept, fun hError => (blame hError).imp_right (Or.imp_right hExcuse)⟩

/-- A computation may excuse its failure with that of the operand before it, which then has to
answer for it. -/
theorem bind {first : Eval Value} {next : Value → Eval Value}
    (hFirst : SoundFrom types references other excuse first)
    (hNext : ∀ value, value.Fits other →
      SoundFrom types others type (value = .error ∨ excuse) (next value)) :
    SoundFrom types (references ++ others) type excuse (first >>= next) := by
  intro bindings hModels
  have hOne := hFirst bindings hModels
  have hTwo := hNext _ hOne.shape _ (hModels.of_kept hOne.kept)
  rw [Eval.bind_apply]
  refine ⟨hTwo.shape, hOne.kept.trans hTwo.kept, fun hError => ?_⟩
  rw [reported_append]
  rcases hTwo.blame hError with hReported | hBlamed | hFailed | hExcuse
  · exact Or.inl (Or.inr hReported)
  · exact Or.inr (Or.inl ((hBlamed.of_kept hOne.kept).mono (by simp)))
  · rcases hOne.blame hFailed with hReported | hBlamed | hExcuse
    · exact Or.inl (Or.inl hReported)
    · exact Or.inr (Or.inl (hBlamed.mono (by simp)))
    · exact Or.inr (Or.inr hExcuse)
  · exact Or.inr (Or.inr hExcuse)

/-- A lambda's body with its new variable bound to an ordinary value. -/
theorem bound {id : Nat} {value : Value} {body : Eval Value} (hNew : types id = none)
    (hValue : other.admits value = true)
    (hBody : SoundFrom (Function.update types id (some other)) references type excuse body) :
    SoundFrom types references type excuse (Eval.applyTo id body value) := by
  intro bindings hModels
  obtain ⟨shape, kept, blame⟩ := hBody _ (hModels.bind (Or.inr hValue))
  refine ⟨shape, Kept.of_bind hNew kept, fun hError => ?_⟩
  rcases blame hError with hReported | hBlamed | hExcuse
  · exact Or.inl hReported
  · exact Or.inr (Or.inl (hBlamed.of_bind (Ty.ne_error_of_admits hValue)))
  · exact Or.inr (Or.inr hExcuse)

end SoundFrom

namespace Eval

variable {config : Config} {types : Types} {references : List Nat} {type element : Ty}

theorem settle_sound (op : Operator) {a b : Value} (span : Span) (hLeft : a.Fits .number)
    (hRight : b.Fits .number) :
    SoundFrom types [] .number (b = .error ∨ a = .error ∨ False)
      (settle span (op.apply a b)) := by
  by_cases hA : a = .error
  · subst hA
    exact SoundFrom.pure (Or.inl rfl) fun _ => Or.inr (Or.inl rfl)
  · by_cases hB : b = .error
    · subst hB
      have hApply : op.apply a .error = .ok .error := by cases a <;> rfl
      rw [hApply]
      exact SoundFrom.pure (Or.inl rfl) fun _ => Or.inl rfl
    · cases hApply : op.apply a b with
      | ok value =>
          have hValue := Operator.apply_admits (hLeft.admits hA) (hRight.admits hB) hApply
          exact SoundFrom.pure (Or.inr hValue) fun hError =>
            absurd hError (Ty.ne_error_of_admits hValue)
      | error cause => exact SoundFrom.fail cause span

theorem ints_sound (span : Span) (lower upper : Int64) {excuse : Prop} :
    SoundFrom types references (.sequence .number) excuse (ints config span lower upper) := by
  unfold ints
  split
  · exact SoundFrom.fail _ _
  · dsimp only
    split
    · have hInt (slice : Slice) : ∀ v ∈ rangeSlice lower slice, Ty.number.admits v = true := by
        unfold rangeSlice
        split
        · simp [Ty.admits]
        · simp [Ty.admits]
      have hAll : (Ty.sequence .number).admits (.sequence
          ((slices (Integer.rangeSize lower upper) config.workers).flatMap (rangeSlice lower))) =
            true := by
        rw [Ty.admits, List.all_eq_true]
        intro v hMem
        obtain ⟨slice, -, hSlice⟩ := List.mem_flatMap.mp hMem
        exact hInt slice v hSlice
      exact SoundFrom.pure (Or.inr hAll) (fun hError => nomatch hError)
    · exact SoundFrom.fail _ _

/-- A bound that is no int is reported. -/
theorem reported_checkBound {which : Bound} {value : Value} {span : Span} {bindings : Bindings}
    (h : ∀ i, value ≠ .int i) : Reported (checkBound which value span bindings).reports := by
  cases value with
  | int i => exact absurd rfl (h i)
  | float | text | sequence | error => exact ⟨_, List.mem_singleton.mpr rfl, rfl⟩

theorem checkBound_bindings (which : Bound) (value : Value) (span : Span) (bindings : Bindings) :
    (checkBound which value span bindings).bindings = bindings := by
  cases value <;> rfl

theorem range_sound (config : Config) (a b : Value) (span lowerSpan upperSpan : Span) :
    SoundFrom types [] (.sequence .number) (b = .error ∨ a = .error ∨ False)
      (range config span lowerSpan upperSpan a b) := by
  unfold range
  split
  · exact SoundFrom.pure (Or.inl rfl) fun _ => Or.inr (Or.inl rfl)
  · exact SoundFrom.pure (Or.inl rfl) fun _ => Or.inl rfl
  · exact ints_sound span _ _
  · next _ _ hNotInts =>
      intro bindings _
      simp only [Eval.bind_apply, checkBound_bindings]
      refine ⟨Or.inl rfl, Kept.refl _ _, fun _ => Or.inl ?_⟩
      rw [reported_append, reported_append]
      by_cases hInt : ∃ i, a = .int i
      · obtain ⟨i, rfl⟩ := hInt
        exact Or.inr (Or.inl (reported_checkBound fun j hJ => hNotInts i j rfl hJ))
      · exact Or.inl (reported_checkBound fun i hI => hInt ⟨i, hI⟩)

/-- Sound tasks done in turn are sound as a whole. -/
theorem each_sound {α : Type} {task : α → Eval Value} (items : List α)
    (hTask : ∀ item ∈ items, SoundFrom types references type False (task item))
    {bindings : Bindings} (hModels : Models types bindings) :
    AllSound types references type bindings (each task items bindings) := by
  induction items generalizing bindings with
  | nil => exact ⟨fun _ hMem => (nomatch hMem), Kept.refl _ _, fun hMem => (nomatch hMem)⟩
  | cons item items ih =>
      have hOne := hTask item (by simp) bindings hModels
      have hRest := ih (fun other hOther => hTask other (by simp [hOther]))
        (hModels.of_kept hOne.kept)
      rw [each_cons]
      refine ⟨?_, hOne.kept.trans hRest.kept, ?_⟩
      · intro value hMem
        rcases List.mem_cons.mp hMem with rfl | hMem
        · exact hOne.shape
        · exact hRest.shape value hMem
      · intro hMem
        rw [reported_append]
        rcases List.mem_cons.mp hMem with hError | hMem
        · rcases hOne.blame hError.symm with hReported | hBlamed | hNone
          · exact Or.inl (Or.inl hReported)
          · exact Or.inr hBlamed
          · exact hNone.elim
        · rcases hRest.blame hMem with hReported | hBlamed
          · exact Or.inl (Or.inr hReported)
          · exact Or.inr (hBlamed.of_kept hOne.kept)

/-- If a task fails on a copy of the bindings, that is reported or the bindings are to blame. -/
theorem blame_fork {α β : Type} {task : α → Eval β} {items : List α} {bindings : Bindings}
    {failed : β → Prop}
    (hTask : ∀ item ∈ items, failed (task item bindings).value →
      Reported (task item bindings).reports ∨ Blamed types references bindings)
    (h : ∃ value ∈ (fork task items bindings).value, failed value) :
    Reported (fork task items bindings).reports ∨ Blamed types references bindings := by
  obtain ⟨value, hMem, hFailed⟩ := h
  simp only [fork, List.map_map, List.mem_map] at hMem
  obtain ⟨item, hItem, rfl⟩ := hMem
  rcases hTask item hItem hFailed with ⟨d, hReport, hStage⟩ | hBlamed
  · refine Or.inl ⟨d, ?_, hStage⟩
    simp only [fork, List.flatMap_map]
    exact List.mem_flatMap.mpr ⟨item, hItem, hReport⟩
  · exact Or.inr hBlamed

theorem fork_sound {α : Type} {task : α → Eval Value} {items : List α} {bindings : Bindings}
    (hTask : ∀ item ∈ items, Sound types references type False bindings (task item bindings)) :
    AllSound types references type bindings (fork task items bindings) := by
  refine ⟨?_, Kept.refl _ _, ?_⟩
  · intro value hMem
    simp only [fork, List.map_map, List.mem_map] at hMem
    obtain ⟨item, hItem, rfl⟩ := hMem
    exact (hTask item hItem).shape
  · intro hMem
    refine blame_fork (fun item hItem hError => ?_) ⟨_, hMem, rfl⟩
    rcases (hTask item hItem).blame hError.symm with hReported | hBlamed | hNone
    · exact Or.inl hReported
    · exact Or.inr hBlamed
    · exact hNone.elim

theorem fork_flatten_sound {α : Type} {task : α → Eval (List Value)} {items : List α}
    {bindings : Bindings}
    (hTask : ∀ item ∈ items, AllSound types references type bindings (task item bindings)) :
    AllSound types references type bindings
      ⟨(fork task items bindings).value.flatten, (fork task items bindings).reports, bindings⟩ := by
  refine ⟨?_, Kept.refl _ _, ?_⟩
  · intro value hMem
    obtain ⟨values, hValues, hMem⟩ := List.mem_flatten.mp hMem
    simp only [fork, List.map_map, List.mem_map] at hValues
    obtain ⟨item, hItem, rfl⟩ := hValues
    exact (hTask item hItem).shape value hMem
  · intro hMem
    exact blame_fork (fun item hItem => (hTask item hItem).blame) (List.mem_flatten.mp hMem)

/-- Values of one type make a sequence, unless one of them has failed. -/
theorem sequence_sound {bindings : Bindings} {outcome : Outcome (List Value)}
    (h : AllSound types references type bindings outcome) (excuse : Prop) :
    Sound types references (.sequence type) excuse bindings
      ⟨if outcome.value.any Value.isError then .error else .sequence outcome.value,
        outcome.reports, outcome.bindings⟩ := by
  by_cases hError : .error ∈ outcome.value
  · rw [if_pos (List.any_eq_true.mpr ⟨_, hError, rfl⟩)]
    refine ⟨Or.inl rfl, h.kept, fun _ => ?_⟩
    rcases h.blame hError with hReported | hBlamed
    · exact Or.inl hReported
    · exact Or.inr (Or.inl hBlamed)
  · have hNone : ¬outcome.value.any Value.isError = true := by
      intro hAny
      obtain ⟨v, hMem, hIsError⟩ := List.any_eq_true.mp hAny
      exact hError (Value.isError_iff.mp hIsError ▸ hMem)
    rw [if_neg hNone]
    refine ⟨Or.inr ?_, h.kept, fun hSequence => nomatch hSequence⟩
    rw [Ty.admits, List.all_eq_true]
    intro v hMem
    exact (h.shape v hMem).admits fun hIs => hError (hIs ▸ hMem)

/-- A lambda applied to every element of a sequence. -/
theorem map_sound {id : Nat} {body : Eval Value} {elements : List Value} {excuse : Prop}
    (hNew : types id = none) (hElements : ∀ v ∈ elements, element.admits v = true)
    (hBody : SoundFrom (Function.update types id (some element)) references type False body) :
    SoundFrom types references (.sequence type) excuse (map config id body elements) := by
  intro bindings hModels
  have hParts : ∀ part ∈ split elements config.workers,
      AllSound types references type bindings (each (applyTo id body) part.2 bindings) := by
    intro part hPart
    apply each_sound part.2 _ hModels
    intro v hMem
    refine SoundFrom.bound hNew (hElements v ?_) hBody
    rw [← flatMap_split elements config.workers_pos]
    exact List.mem_flatMap.mpr ⟨part, hPart, hMem⟩
  have h := sequence_sound (fork_flatten_sound hParts) excuse
  simpa only [map, Eval.bind_apply, give, List.append_nil, fork_bindings] using h

/-- One step of a fold whose accumulator and elements have one type. -/
theorem combine_sound {a e : Nat} {body : Eval Value} {x y : Value} (hAccumulator : types a = none)
    (hElement : types e = none) (hDistinct : a ≠ e)
    (hBody : SoundFrom (Function.update (Function.update types a (some type)) e (some type))
      references type False body)
    (hX : x.Fits type) (hY : y.Fits type) :
    SoundFrom types references type (x = .error ∨ y = .error) (combine a e body x y) := by
  unfold combine
  by_cases hFailed : x = .error ∨ y = .error
  · have hIs : (x.isError || y.isError) = true := by
      rw [Bool.or_eq_true, Value.isError_iff, Value.isError_iff]
      exact hFailed
    rw [if_pos hIs]
    exact SoundFrom.pure (Or.inl rfl) fun _ => hFailed
  · have hIsNot : ¬(x.isError || y.isError) = true := by
      rw [Bool.or_eq_true, Value.isError_iff, Value.isError_iff]
      exact hFailed
    rw [if_neg hIsNot]
    obtain ⟨hXOk, hYOk⟩ := not_or.mp hFailed
    have hInner : Function.update types a (some type) e = none := by
      rw [Function.update_of_ne hDistinct.symm, hElement]
    have hTwo := SoundFrom.bound hInner (hY.admits hYOk) hBody
    exact (SoundFrom.bound hAccumulator (hX.admits hXOk) hTwo).weaken False.elim

/-- Folding values of one type gives a value of that type. If the result has failed, a step has, or
what went into the fold. -/
theorem fold_sound {step : Value → Value → Eval Value}
    (hStep : ∀ x y, x.Fits type → y.Fits type →
      SoundFrom types references type (x = .error ∨ y = .error) (step x y))
    (items : List Value) (hItems : ∀ v ∈ items, v.Fits type) {start : Value}
    (hStart : start.Fits type) :
    SoundFrom types references type (start = .error ∨ .error ∈ items) (fold step start items) := by
  induction items generalizing start with
  | nil =>
      intro bindings _
      exact ⟨hStart, Kept.refl _ _, fun hError => Or.inr (Or.inr (Or.inl hError))⟩
  | cons item items ih =>
      intro bindings hModels
      have hOne := hStep start item hStart (hItems item (by simp)) bindings hModels
      have hRest := ih (fun v hMem => hItems v (by simp [hMem])) hOne.shape _
        (hModels.of_kept hOne.kept)
      rw [fold_cons]
      refine ⟨hRest.shape, hOne.kept.trans hRest.kept, fun hError => ?_⟩
      rw [reported_append]
      rcases hRest.blame hError with hReported | hBlamed | hFailed | hMem
      · exact Or.inl (Or.inr hReported)
      · exact Or.inr (Or.inl (hBlamed.of_kept hOne.kept))
      · rcases hOne.blame hFailed with hReported | hBlamed | hFirst | hItem
        · exact Or.inl (Or.inl hReported)
        · exact Or.inr (Or.inl hBlamed)
        · exact Or.inr (Or.inr (Or.inl hFirst))
        · exact Or.inr (Or.inr (Or.inr (by simp [hItem])))
      · exact Or.inr (Or.inr (Or.inr (by simp [hMem])))

theorem foldSlice_sound {step : Value → Value → Eval Value}
    (hStep : ∀ x y, x.Fits type → y.Fits type →
      SoundFrom types references type (x = .error ∨ y = .error) (step x y))
    {values : List Value} (hNonempty : values ≠ []) (hValues : ∀ v ∈ values, type.admits v = true) :
    SoundFrom types references type False (foldSlice step values) := by
  cases values with
  | nil => exact absurd rfl hNonempty
  | cons first rest =>
      have hFirst := hValues first (by simp)
      have hRest : ∀ v ∈ rest, type.admits v = true := fun v hMem => hValues v (by simp [hMem])
      refine (fold_sound hStep rest (fun v hMem => Or.inr (hRest v hMem)) (Or.inr hFirst)).weaken ?_
      rintro (hError | hMem)
      · exact Ty.ne_error_of_admits hFirst hError
      · exact Ty.ne_error_of_admits (hRest _ hMem) rfl

/-- A fold of a sequence whose elements have the type of the base. Every slice gives a value of this
type, so the slices can be folded like elements. -/
theorem reduce_sound {a e : Nat} {body : Eval Value} {base : Value} {elements : List Value}
    {excuse : Prop} (hAccumulator : types a = none) (hElement : types e = none) (hDistinct : a ≠ e)
    (hBody : SoundFrom (Function.update (Function.update types a (some type)) e (some type))
      references type False body)
    (hBase : type.admits base = true) (hElements : ∀ v ∈ elements, type.admits v = true) :
    SoundFrom types references type excuse (reduce config a e body base elements) := by
  intro bindings hModels
  have hStep (x y : Value) (hX : x.Fits type) (hY : y.Fits type) :=
    combine_sound hAccumulator hElement hDistinct hBody hX hY
  have hParts : ∀ part ∈ split elements config.workers,
      Sound types references type False bindings
        (foldSlice (combine a e body) part.2 bindings) := by
    intro part hPart
    refine foldSlice_sound hStep (ne_nil_of_mem_split config.workers_pos hPart) ?_ bindings hModels
    intro v hMem
    apply hElements
    rw [← flatMap_split elements config.workers_pos]
    exact List.mem_flatMap.mpr ⟨part, hPart, hMem⟩
  have hFork := fork_sound hParts
  have hFold := fold_sound hStep _ hFork.shape (Or.inr hBase) bindings hModels
  simp only [reduce, Eval.bind_apply, fork_bindings, give, release, List.append_nil]
  refine ⟨hFold.shape, ?_, fun hError => ?_⟩
  · exact (hFold.kept.trans (Kept.release types _ hAccumulator)).trans
      (Kept.release types _ hElement)
  · rw [reported_append]
    rcases hFold.blame hError with hReported | hBlamed | hFailed | hMem
    · exact Or.inl (Or.inr hReported)
    · exact Or.inr (Or.inl hBlamed)
    · exact absurd hFailed (Ty.ne_error_of_admits hBase)
    · rcases hFork.blame hMem with hReported | hBlamed
      · exact Or.inl (Or.inl hReported)
      · exact Or.inr (Or.inl hBlamed)

end Eval

/-- Evaluating a checked expression whose folds begin with a value of the elements' type gives a
value of the recorded type or fails; a failure is reported or comes from a variable that had failed
before. -/
theorem Expr.Typed.sound (config : Config) {types : Types} {e : Expr} {type : Ty}
    (h : e.Typed types type) (hUniform : e.uniform = true) :
    SoundFrom types e.references type False (e.eval config) := by
  induction h with
  | int => exact SoundFrom.pure (Or.inr rfl) (fun hError => nomatch hError)
  | float => exact SoundFrom.pure (Or.inr rfl) (fun hError => nomatch hError)
  | @ref types mark name id type hType =>
      intro bindings hModels
      obtain ⟨value, hLookup, hFits⟩ := hModels id type hType
      have hRead : (Eval.read (some id) bindings).value = value := by simp [Eval.read, hLookup]
      refine ⟨by rw [eval, hRead]; exact hFits, Kept.refl _ _, fun hError => ?_⟩
      rw [eval, hRead] at hError
      exact Or.inr (Or.inl ⟨id, by simp [references], by simp [hType], hError ▸ hLookup⟩)
  | @binary types mark op left right _ _ ihLeft ihRight =>
      rw [uniform, Bool.and_eq_true] at hUniform
      have hAll := (ihLeft hUniform.1).bind fun a hA =>
        ((ihRight hUniform.2).weaken False.elim).bind fun b hB =>
          Eval.settle_sound op mark.span hA hB
      rw [List.append_nil] at hAll
      exact hAll
  | paren _ ih => exact ih hUniform
  | @range types mark lower upper _ _ ihLower ihUpper =>
      rw [uniform, Bool.and_eq_true] at hUniform
      have hAll := (ihLower hUniform.1).bind fun a _ =>
        ((ihUpper hUniform.2).weaken False.elim).bind fun b _ =>
          Eval.range_sound config a b mark.span lower.span upper.span
      rw [List.append_nil] at hAll
      exact hAll
  | @map types mark argument body param id element type _ hNew _ ihArgument ihBody =>
      rw [uniform, Bool.and_eq_true] at hUniform
      refine (ihArgument hUniform.1).bind fun value hValue => ?_
      by_cases hError : value = .error
      · subst hError
        exact SoundFrom.pure (Or.inl rfl) fun _ => Or.inl rfl
      · obtain ⟨elements, rfl, hElements⟩ := Ty.admits_sequence (hValue.admits hError)
        exact Eval.map_sound hNew hElements (ihBody hUniform.2)
  | @reduce types mark sequence base body accumulator element a e elementType type hSequence hBase
      hAccumulator hElement hDistinct _ ihSequence ihBase ihBody =>
      rw [uniform, Bool.and_eq_true, Bool.and_eq_true, Bool.and_eq_true, decide_eq_true_iff,
        hSequence.type_eq, hBase.type_eq] at hUniform
      obtain ⟨hSame, hUniformSequence, hUniformBase, hUniformBody⟩ := hUniform
      cases hSame
      refine (ihBase hUniformBase).bind fun start hStart =>
        ((ihSequence hUniformSequence).weaken False.elim).bind fun value hValue => ?_
      by_cases hError : value = .error
      · subst hError
        exact SoundFrom.pure (Or.inl rfl) fun _ => Or.inl rfl
      · obtain ⟨elements, rfl, hElements⟩ := Ty.admits_sequence (hValue.admits hError)
        by_cases hFailed : start = .error
        · subst hFailed
          exact SoundFrom.pure (Or.inl rfl) fun _ => Or.inr (Or.inl rfl)
        · have hIsNot : ¬start.isError = true := fun hIs => hFailed (Value.isError_iff.mp hIs)
          dsimp only [Binding.resolved]
          rw [if_neg hIsNot]
          exact Eval.reduce_sound hAccumulator hElement hDistinct (ihBody hUniformBody)
            (hStart.admits hFailed) hElements

end Progression
