import Progression.Proofs.Unchecked

/-! What names are resolved to over whole runs of the checker. Variables are numbered in the order
of declaration, no two names share one, and every reference leads to the name that hides all others
of its spelling where it stands. -/

namespace Progression

/-- A reference where it stands: its name, what was found out about it, and the names that the
lambdas around it introduce, the innermost first. -/
structure Occurrence where
  name : String
  target : Option Nat
  type : Option Ty
  enclosing : List Binding
deriving DecidableEq

namespace Expr

/-- The expression and all expressions inside it. -/
def nodes : Expr → List Expr
  | int mark value => [int mark value]
  | float mark value => [float mark value]
  | ref mark name target => [ref mark name target]
  | binary mark op left right => binary mark op left right :: (left.nodes ++ right.nodes)
  | paren mark inner => paren mark inner :: inner.nodes
  | range mark lower upper => range mark lower upper :: (lower.nodes ++ upper.nodes)
  | map mark argument param body =>
      map mark argument param body :: (argument.nodes ++ body.nodes)
  | reduce mark sequence base accumulator element body =>
      reduce mark sequence base accumulator element body ::
        (sequence.nodes ++ (base.nodes ++ body.nodes))

/-- The names that the lambdas inside an expression introduce, in the order of declaration. -/
def bindings : Expr → List Binding
  | int _ _ => []
  | float _ _ => []
  | ref _ _ _ => []
  | binary _ _ left right => left.bindings ++ right.bindings
  | paren _ inner => inner.bindings
  | range _ lower upper => lower.bindings ++ upper.bindings
  | map _ argument param body => argument.bindings ++ param :: body.bindings
  | reduce _ sequence base accumulator element body =>
      base.bindings ++ (sequence.bindings ++ accumulator :: element :: body.bindings)

/-- The references inside an expression that stands inside lambdas. -/
def occurrences (enclosing : List Binding) : Expr → List Occurrence
  | int _ _ => []
  | float _ _ => []
  | ref mark name target => [⟨name, target, mark.type, enclosing⟩]
  | binary _ _ left right => left.occurrences enclosing ++ right.occurrences enclosing
  | paren _ inner => inner.occurrences enclosing
  | range _ lower upper => lower.occurrences enclosing ++ upper.occurrences enclosing
  | map _ argument param body =>
      argument.occurrences enclosing ++ body.occurrences (param :: enclosing)
  | reduce _ sequence base accumulator element body =>
      sequence.occurrences enclosing ++
        (base.occurrences enclosing ++ body.occurrences (element :: accumulator :: enclosing))

end Expr

namespace Statement

/-- All expressions of the statement. -/
def nodes (s : Statement) : List Expr := s.value?.toList.flatMap Expr.nodes

/-- All names that the statement introduces, in the order of declaration. -/
def bindings (s : Statement) : List Binding :=
  s.value?.toList.flatMap Expr.bindings ++ s.target?.toList

/-- All references of the statement. -/
def occurrences (s : Statement) : List Occurrence := s.value?.toList.flatMap (Expr.occurrences [])

/-- Everything is filled in: a variable for every name that is introduced, a target for every
reference and a type for every expression. -/
structure Complete (s : Statement) : Prop where
  bindings : ∀ b ∈ s.bindings, b.id.isSome = true
  occurrences : ∀ r ∈ s.occurrences, r.target.isSome = true
  nodes : ∀ e ∈ s.nodes, e.type.isSome = true

end Statement

/-- The name stands for the variable: for that of the innermost lambda that introduces it, and where
no lambda does for what it stands for outside. -/
def Leads (outside : String → Nat → Prop) (enclosing : List Binding) (name : String) (id : Nat) :
    Prop :=
  match enclosing.find? fun b => b.name = name with
  | some b => b.id = some id
  | none => outside name id

/-- The reference has the variable that its name stands for as its target, and the type of that
variable. -/
def Occurrence.Resolves (outside : String → Nat → Prop) (arena : Array Variable)
    (r : Occurrence) : Prop :=
  ∃ id v, r.target = some id ∧ Leads outside r.enclosing r.name id ∧
    arena[id]? = some v ∧ r.type = some v.type

/-- The one statement before that declares the name declares the variable. -/
def Earlier (before : List Statement) (name : String) (id : Nat) : Prop :=
  ∃ b, (before.filterMap Statement.target?).filter (fun b => b.name = name) = [b] ∧ b.id = some id

/-- Every variable stands at its own number. -/
def Numbered (arena : Array Variable) : Prop :=
  ∀ (i : Nat) (v : Variable), arena[i]? = some v → v.id = i

/-- The names have variables with ascending numbers from the lower bound on, below the upper. -/
def Ascending : Nat → List Binding → Nat → Prop
  | lower, [], upper => lower ≤ upper
  | lower, b :: rest, upper => ∃ id, b.id = some id ∧ lower ≤ id ∧ Ascending (id + 1) rest upper

namespace Ascending

variable {lower middle upper : Nat} {bs cs : List Binding}

theorem le_left (h : Ascending middle bs upper) (hLe : lower ≤ middle) :
    Ascending lower bs upper := by
  cases bs with
  | nil => exact Nat.le_trans hLe h
  | cons b bs =>
      obtain ⟨id, hId, hLower, hRest⟩ := h
      exact ⟨id, hId, Nat.le_trans hLe hLower, hRest⟩

theorem append (h : Ascending lower bs middle) (hNext : Ascending middle cs upper) :
    Ascending lower (bs ++ cs) upper := by
  induction bs generalizing lower with
  | nil => exact hNext.le_left h
  | cons b bs ih =>
      obtain ⟨id, hId, hLower, hRest⟩ := h
      exact ⟨id, hId, hLower, ih hRest⟩

theorem grow (h : Ascending lower bs middle) (hLe : middle ≤ upper) : Ascending lower bs upper := by
  have hNone : Ascending middle [] upper := hLe
  simpa using h.append hNone

theorem exists_id (h : Ascending lower bs upper) :
    ∀ b ∈ bs, ∃ id, b.id = some id ∧ lower ≤ id := by
  induction bs generalizing lower with
  | nil => simp
  | cons b bs ih =>
      obtain ⟨id, hId, hLower, hRest⟩ := h
      refine List.forall_mem_cons.mpr ⟨⟨id, hId, hLower⟩, ?_⟩
      intro c hMem
      obtain ⟨other, hOther, hLess⟩ := ih hRest c hMem
      exact ⟨other, hOther, by omega⟩

theorem nodup (h : Ascending lower bs upper) : (bs.map Binding.id).Nodup := by
  induction bs generalizing lower with
  | nil => exact List.nodup_nil
  | cons b bs ih =>
      obtain ⟨id, hId, -, hRest⟩ := h
      refine List.nodup_cons.mpr ⟨?_, ih hRest⟩
      intro hMem
      obtain ⟨c, hIn, hSame⟩ := List.mem_map.mp hMem
      obtain ⟨other, hOther, hLess⟩ := hRest.exists_id c hIn
      rw [hOther, hId, Option.some_inj] at hSame
      omega

end Ascending

theorem Numbered.push {arena : Array Variable} (h : Numbered arena) (name : String) (type : Ty) :
    Numbered (arena.push ⟨arena.size, name, type⟩) := by
  intro i v hVariable
  rw [Array.getElem?_push] at hVariable
  split at hVariable
  · next hLast =>
      cases hVariable
      exact hLast.symm
  · exact h i v hVariable

namespace Check

theorem numbered_closed :
    Closed fun _ check => ∀ declared, Numbered declared → Numbered (check declared).declared where
  pure a declared h := h
  reject cause span declared h := h
  resolve scope name span declared h := by
    rw [resolve]
    split
    · exact h
    · exact h
  declare binding type declared h := h.push binding.name type
  bind := by
    intro α β first next hFirst hNext declared h
    simp only [Bind.bind, andThen]
    cases (first declared).result with
    | none => exact hFirst declared h
    | some a => exact hNext a _ (hFirst declared h)
  both hFirst hSecond declared h := hSecond _ (hFirst declared h)

end Check

theorem Expr.Passed.numbered {e checked : Expr} {type : Ty} {scope : Scope}
    {declared final : Array Variable} (h : e.Passed scope declared type checked final)
    (hNumbered : Numbered declared) : Numbered final := by
  rw [← h.accepts.2]
  exact e.check_closed Check.numbered_closed scope declared hNumbered

theorem Expr.Passed.nodes_typed {e checked : Expr} {type : Ty} {scope : Scope}
    {declared final : Array Variable} (h : e.Passed scope declared type checked final) :
    ∀ node ∈ checked.nodes, node.type.isSome = true := by
  induction h with
  | int | float | ref => simp [nodes, Expr.type, mark, Mark.typed]
  | paren _ ih => exact List.forall_mem_cons.mpr ⟨rfl, ih⟩
  | binary _ _ ihFirst ihSecond | range _ _ ihFirst ihSecond | map _ _ ihFirst ihSecond =>
      exact List.forall_mem_cons.mpr ⟨rfl, List.forall_mem_append.mpr ⟨ihFirst, ihSecond⟩⟩
  | reduce _ _ _ _ ihBase ihSequence ihBody =>
      have hParts := List.forall_mem_append.mpr
        ⟨ihSequence, List.forall_mem_append.mpr ⟨ihBase, ihBody⟩⟩
      exact List.forall_mem_cons.mpr ⟨rfl, hParts⟩

/-- The lambdas inside what passes get the variables that are declared meanwhile. -/
theorem Expr.Passed.ascending {e checked : Expr} {type : Ty} {scope : Scope}
    {declared final : Array Variable} (h : e.Passed scope declared type checked final) :
    Ascending declared.size checked.bindings final.size := by
  induction h with
  | int | float | ref => exact Nat.le_refl _
  | binary _ _ ihLeft ihRight => exact ihLeft.append ihRight
  | paren _ ih => exact ih
  | range _ _ ihLower ihUpper => exact ihLower.append ihUpper
  | map _ _ ihArgument ihBody =>
      refine ihArgument.append ⟨_, rfl, Nat.le_refl _, ?_⟩
      simpa using ihBody
  | reduce _ _ _ _ ihBase ihSequence ihBody =>
      refine ihBase.append (ihSequence.append ⟨_, rfl, Nat.le_refl _, _, rfl, Nat.le_refl _, ?_⟩)
      simpa using ihBody

theorem Occurrence.Resolves.grow {outside : String → Nat → Prop} {arena : Array Variable}
    {r : Occurrence} (h : r.Resolves outside arena) (more : Array Variable) :
    r.Resolves outside (arena ++ more) := by
  obtain ⟨id, v, hTarget, hLeads, hVariable, hType⟩ := h
  obtain ⟨hLess, -⟩ := Array.getElem?_eq_some_iff.mp hVariable
  exact ⟨id, v, hTarget, hLeads, by rw [Array.getElem?_append_left hLess, hVariable], hType⟩

/-- Every name of the scope leads to its variable. -/
def Scope.Explains (scope : Scope) (outside : String → Nat → Prop) (enclosing : List Binding) :
    Prop :=
  ∀ name id, scope.lookup name = some id → Leads outside enclosing name id

theorem Scope.Explains.declare {scope : Scope} {outside : String → Nat → Prop}
    {enclosing : List Binding} (h : scope.Explains outside enclosing) (binding : Binding)
    (id : Nat) :
    (scope.declare binding.name id).Explains outside (binding.resolved id :: enclosing) := by
  intro name other hLookup
  rw [lookup_declare] at hLookup
  by_cases hName : name = binding.name
  · rw [if_pos hName, Option.some_inj] at hLookup
    subst hName hLookup
    simp [Leads, Binding.resolved]
  · rw [if_neg hName] at hLookup
    have hOuter := h name other hLookup
    have hOther : ¬binding.name = name := fun hSame => hName hSame.symm
    simpa [Leads, Binding.resolved, List.find?_cons, hOther] using hOuter

/-- The references inside what passes lead where the scope does. -/
theorem Expr.Passed.resolves {e checked : Expr} {type : Ty} {scope : Scope}
    {declared final : Array Variable} {outside : String → Nat → Prop} {enclosing : List Binding}
    (h : e.Passed scope declared type checked final) (hNumbered : Numbered declared)
    (hScope : scope.Explains outside enclosing) :
    ∀ r ∈ checked.occurrences enclosing, r.Resolves outside final := by
  induction h generalizing enclosing with
  | int | float => simp [occurrences]
  | @ref scope declared mark name target id v hLookup hVariable =>
      have hId := hNumbered id v hVariable
      refine List.forall_mem_singleton.mpr ⟨id, v, ?_, hScope name id hLookup, hVariable, rfl⟩
      rw [hId]
  | paren _ ih => exact ih hNumbered hScope
  | binary hFirst hSecond ihFirst ihSecond | range hFirst hSecond ihFirst ihSecond =>
      have hMiddle := hFirst.numbered hNumbered
      obtain ⟨more, rfl⟩ := hSecond.grows
      refine List.forall_mem_append.mpr ⟨?_, ihSecond hMiddle hScope⟩
      intro r hMem
      exact (ihFirst hNumbered hScope r hMem).grow more
  | @map scope _ middle _ _ _ _ _ _ param element _ hArgument hBody ihArgument ihBody =>
      have hMiddle := hArgument.numbered hNumbered
      have hInner : scope.enter.Explains outside enclosing := hScope
      have hLambda := ihBody (hMiddle.push param.name element) (hInner.declare param middle.size)
      obtain ⟨more, rfl⟩ := hBody.grows
      refine List.forall_mem_append.mpr ⟨?_, hLambda⟩
      intro r hMem
      rw [Array.push_eq_append, Array.append_assoc]
      exact (ihArgument hNumbered hScope r hMem).grow _
  | @reduce scope _ early middle _ _ _ _ _ _ _ _ accumulator element elementType type hBase
      hSequence _ hBody ihBase ihSequence ihBody =>
      have hEarly := hBase.numbered hNumbered
      have hMiddle := hSequence.numbered hEarly
      have hPushed := (hMiddle.push accumulator.name type).push element.name elementType
      rw [Array.size_push] at hPushed
      have hInner : scope.enter.Explains outside enclosing := hScope
      have hLambda := ihBody hPushed
        ((hInner.declare accumulator middle.size).declare element (middle.size + 1))
      have hSequenceRefs := ihSequence hEarly hScope
      obtain ⟨rest, rfl⟩ := hSequence.grows
      obtain ⟨more, rfl⟩ := hBody.grows
      refine List.forall_mem_append.mpr ⟨?_, List.forall_mem_append.mpr ⟨?_, hLambda⟩⟩
      · intro r hMem
        simp only [Array.push_eq_append]
        exact (((hSequenceRefs r hMem).grow _).grow _).grow _
      · intro r hMem
        simp only [Array.push_eq_append, Array.append_assoc]
        exact (ihBase hNumbered hScope r hMem).grow _

theorem Checker.numbered_step {checker : Checker} (h : Numbered checker.declared) (event : Event) :
    Numbered (checker.step event).2.declared := by
  cases event with
  | report d => exact h
  | statement s =>
      have hFinal := checkStatement_closed Check.numbered_closed checker.globals s _ h
      simp only [step]
      split
      · exact hFinal
      · exact hFinal

namespace Checker.Passed

variable {checker next : Checker} {s : Statement}

theorem grows (h : checker.Passed s next) : ∃ more, next.declared = checker.declared ++ more := by
  cases h with
  | @assign span target value checked type final hValue hNew =>
      obtain ⟨more, rfl⟩ := hValue.grows (value.check_grows _)
      exact ⟨more ++ #[_], by rw [Array.push_eq_append, Array.append_assoc]⟩
  | @out span value checked type final hValue => exact hValue.grows (value.check_grows _)
  | print => exact ⟨#[], by rw [Array.append_empty]⟩

/-- The names of a statement that passes get the variables that are declared meanwhile. -/
theorem ascending (h : checker.Passed s next) :
    Ascending checker.declared.size s.bindings next.declared.size := by
  cases h with
  | @assign span target value checked type final hValue hNew =>
      have hTarget : Ascending final.size [target.resolved final.size]
          (final.push ⟨final.size, target.name, type⟩).size :=
        ⟨final.size, rfl, Nat.le_refl _, by simp [Ascending]⟩
      simpa [Statement.bindings, Statement.value?, Statement.target?] using
        (Expr.passed_of_accepts hValue).ascending.append hTarget
  | out hValue =>
      simpa [Statement.bindings, Statement.value?, Statement.target?] using
        (Expr.passed_of_accepts hValue).ascending
  | print => exact Nat.le_refl _

theorem nodes_typed (h : checker.Passed s next) : ∀ e ∈ s.nodes, e.type.isSome = true := by
  cases h with
  | assign hValue _ | out hValue =>
      simpa [Statement.nodes, Statement.value?] using
        (Expr.passed_of_accepts hValue).nodes_typed
  | print => simp [Statement.nodes, Statement.value?]

theorem resolves (h : checker.Passed s next) (hNumbered : Numbered checker.declared)
    {outside : String → Nat → Prop} (hGlobals : checker.globals.Explains outside []) :
    ∀ r ∈ s.occurrences, r.Resolves outside next.declared := by
  cases h with
  | assign hValue _ =>
      have hAll := (Expr.passed_of_accepts hValue).resolves hNumbered hGlobals
      intro r hMem
      rw [Array.push_eq_append]
      exact (hAll r (by simpa [Statement.occurrences, Statement.value?] using hMem)).grow _
  | out hValue =>
      simpa [Statement.occurrences, Statement.value?] using
        (Expr.passed_of_accepts hValue).resolves hNumbered hGlobals
  | print => simp [Statement.occurrences, Statement.value?]

end Checker.Passed

theorem Scope.declares_declare {scope : Scope} {name : String} (h : scope.declares name = true)
    (other : String) (id : Nat) : (scope.declare other id).declares name = true := by
  rw [declares, declare, List.lookup_cons]
  split
  · rfl
  · exact h

/-- A statement that does not declare the name leaves it alone. -/
theorem Earlier.append {before : List Statement} {name : String} {id : Nat}
    (h : Earlier before name id) {s : Statement} (hOther : ∀ b ∈ s.target?, b.name ≠ name) :
    Earlier (before ++ [s]) name id := by
  obtain ⟨b, hUnique, hId⟩ := h
  refine ⟨b, ?_, hId⟩
  rw [List.filterMap_append, List.filter_append, hUnique]
  cases hTarget : s.target? with
  | none => simp [hTarget]
  | some c => simpa [hTarget] using hOther c hTarget

/-- The name is declared for the first time. -/
theorem earlier_new {before : List Statement} {s : Statement} {b : Binding} {id : Nat}
    (hNew : ∀ c ∈ before.filterMap Statement.target?, c.name ≠ b.name)
    (hTarget : s.target? = some b) (hId : b.id = some id) : Earlier (before ++ [s]) b.name id := by
  refine ⟨b, ?_, hId⟩
  have hNone : (before.filterMap Statement.target?).filter (fun c => c.name = b.name) = [] := by
    simpa [List.filter_eq_nil_iff] using hNew
  rw [List.filterMap_append, List.filter_append, hNone]
  simp [hTarget]

/-- What is known about a checker that has handed on the statements. -/
structure Checker.Sound (handed : List Statement) (checker : Checker) : Prop where
  numbered : Numbered checker.declared
  known : checker.globals.Explains (Earlier handed) []
  taken : ∀ b ∈ handed.filterMap Statement.target?, checker.globals.declares b.name = true
  ascending : Ascending 0 (handed.flatMap Statement.bindings) checker.declared.size
  typed : ∀ s ∈ handed, ∀ e ∈ s.nodes, e.type.isSome = true
  resolved : ∀ before s after, handed = before ++ s :: after →
    ∀ r ∈ s.occurrences, r.Resolves (Earlier before) checker.declared

namespace Checker.Sound

variable {handed : List Statement} {checker next : Checker} {s : Statement}

theorem first : Checker.Sound [] Checker.first where
  numbered := by simp [Numbered, Checker.first]
  known := by
    intro name id hLookup
    cases hLookup
  taken := by simp
  ascending := Nat.le_refl 0
  typed := by simp
  resolved := by simp

theorem nothing (h : Sound handed checker) {more : Array Variable}
    (hNumbered : Numbered (checker.declared ++ more)) :
    Sound handed ⟨checker.declared ++ more, checker.globals⟩ where
  numbered := hNumbered
  known := h.known
  taken := h.taken
  ascending := h.ascending.grow (by simp)
  typed := h.typed
  resolved := by
    intro before s after hHanded r hMem
    exact (h.resolved before s after hHanded r hMem).grow more

theorem known_passed (h : Sound handed checker) (hPassed : checker.Passed s next) :
    next.globals.Explains (Earlier (handed ++ [s])) [] := by
  cases hPassed with
  | @assign span target value checked type final hValue hNew =>
      intro name id hLookup
      rw [Scope.lookup_declare] at hLookup
      split at hLookup
      · next hName =>
          cases hLookup
          subst hName
          refine earlier_new (b := target.resolved final.size) ?_ rfl rfl
          intro c hMem hSame
          have hTaken := h.taken c hMem
          rw [hSame, Binding.resolved, hNew] at hTaken
          cases hTaken
      · next hName =>
          have hKnown : Earlier handed name id := h.known name id hLookup
          apply hKnown.append
          rintro _ ⟨⟩ hSame
          exact hName hSame.symm
  | out hValue =>
      intro name id hLookup
      have hKnown : Earlier handed name id := h.known name id hLookup
      exact hKnown.append (by simp [Statement.target?])
  | print =>
      intro name id hLookup
      have hKnown : Earlier handed name id := h.known name id hLookup
      exact hKnown.append (by simp [Statement.target?])

theorem taken_passed (h : Sound handed checker) (hPassed : checker.Passed s next) :
    ∀ b ∈ (handed ++ [s]).filterMap Statement.target?, next.globals.declares b.name = true := by
  rw [List.filterMap_append, List.forall_mem_append]
  constructor
  · intro b hMem
    have hTaken := h.taken b hMem
    cases hPassed with
    | assign hValue hNew => exact Scope.declares_declare hTaken _ _
    | out hValue => exact hTaken
    | print => exact hTaken
  · cases hPassed with
    | assign hValue hNew =>
        simp [Statement.target?, Scope.declares, Scope.declare, Binding.resolved]
    | out hValue => simp [Statement.target?]
    | print => simp [Statement.target?]

theorem passed (h : Sound handed checker) (hPassed : checker.Passed s next)
    (hNumbered : Numbered next.declared) : Sound (handed ++ [s]) next where
  numbered := hNumbered
  known := h.known_passed hPassed
  taken := h.taken_passed hPassed
  ascending := by
    rw [List.flatMap_append, List.flatMap_singleton]
    exact h.ascending.append hPassed.ascending
  typed := List.forall_mem_append.mpr
    ⟨h.typed, List.forall_mem_singleton.mpr hPassed.nodes_typed⟩
  resolved := by
    intro before other after hHanded
    -- The statement is the new one, or it was handed on before and since then variables were added.
    rcases List.eq_nil_or_concat after with rfl | ⟨rest, last, rfl⟩
    · obtain ⟨rfl, hSame⟩ := List.append_inj' hHanded rfl
      cases hSame
      exact hPassed.resolves h.numbered h.known
    · have hSplit : handed ++ [s] = (before ++ other :: rest) ++ [last] := by simpa using hHanded
      obtain ⟨hBefore, -⟩ := List.append_inj' hSplit rfl
      obtain ⟨more, hMore⟩ := hPassed.grows
      intro r hMem
      rw [hMore]
      exact (h.resolved before other rest hBefore r hMem).grow more

end Checker.Sound

theorem Checker.Sound.step {handed : List Statement} {checker : Checker}
    (h : Sound handed checker) (event : Event) :
    Sound (handed ++ statements (checker.step event).1) (checker.step event).2 := by
  have hNumbered := numbered_step h.numbered event
  have hHands := checker.hands_step event
  generalize statements (checker.step event).1 = passing at hHands ⊢
  generalize (checker.step event).2 = next at hHands hNumbered ⊢
  cases hHands with
  | nothing more =>
      rw [List.append_nil]
      exact h.nothing hNumbered
  | passed hPassed => exact h.passed hPassed hNumbered

/-- The invariant holds however far a run of the checker has come. -/
theorem Checker.sound_run (events : List Event) :
    Checker.Sound (statements (Checker.first.run events).1) (Checker.first.run events).2 := by
  have hStep (history : List Event) (checker : Checker) (event : Event)
      (h : Checker.Sound (statements history) checker) :
      Checker.Sound (statements (history ++ (checker.step event).1)) (checker.step event).2 := by
    rw [statements_append]
    exact h.step event
  have hFirst : Checker.Sound (statements []) Checker.first := Sound.first
  exact transduce_history _ hStep events hFirst

theorem Checker.Hands.grows {checker next : Checker} {handed : List Statement}
    (h : checker.Hands handed next) : ∃ more, next.declared = checker.declared ++ more := by
  cases h with
  | nothing more => exact ⟨more, rfl⟩
  | passed hPassed => exact hPassed.grows

theorem Checker.run_grows (checker : Checker) (events : List Event) :
    ∃ more, (checker.run events).2.declared = checker.declared ++ more := by
  induction events generalizing checker with
  | nil => exact ⟨#[], by rw [Array.append_empty]; rfl⟩
  | cons event events ih =>
      obtain ⟨more, hMore⟩ := (checker.hands_step event).grows
      obtain ⟨rest, hRest⟩ := ih (checker.step event).2
      refine ⟨more ++ rest, ?_⟩
      rw [← Array.append_assoc, ← hMore, ← hRest]
      rfl

theorem Checker.Sound.complete {handed : List Statement} {checker : Checker}
    (h : Sound handed checker) : ∀ s ∈ handed, s.Complete := by
  intro s hMem
  constructor
  · intro b hBinding
    obtain ⟨id, hId, -⟩ := h.ascending.exists_id b (List.mem_flatMap.mpr ⟨s, hMem, hBinding⟩)
    rw [hId]
    rfl
  · intro r hOccurs
    obtain ⟨before, after, hHanded⟩ := List.append_of_mem hMem
    obtain ⟨id, v, hTarget, -⟩ := h.resolved before s after hHanded r hOccurs
    rw [hTarget]
    rfl
  · exact h.typed s hMem

/-- The statements that the checker hands on while program texts are fed to it one after the
other. -/
def forwarded (sources : List String) : List Statement :=
  statements (Checker.first.run (sources.flatMap parse)).1

/-- The variables that are declared when program texts have been fed to a checker one after the
other. -/
def arena (sources : List String) : Array Variable :=
  (Checker.first.run (sources.flatMap parse)).2.declared

/-- What checking resolves, over all texts that are fed to one checker. At every point of the run
the variables stand at their own numbers and none is lost. Checking a statement in place fills every
slot at most once, whether the statement passes or not. What is handed on is complete, no two names
share a variable, and every reference leads to the innermost lambda that introduces its name, or
else to the only earlier statement that declares it, and has the type of that variable. -/
theorem resolution_sound (sources : List String) :
    (∀ before meanwhile after, sources.flatMap parse = before ++ (meanwhile ++ after) →
      Numbered (Checker.first.run before).2.declared ∧
        ∃ more, (Checker.first.run (before ++ meanwhile)).2.declared =
          (Checker.first.run before).2.declared ++ more) ∧
    (∀ before s after, sources.flatMap parse = before ++ .statement s :: after →
      (Checker.first.run before).2.FillsOnce s) ∧
    (∀ s ∈ forwarded sources, s.Complete) ∧
    (((forwarded sources).flatMap Statement.bindings).map Binding.id).Nodup ∧
    ∀ before s after, forwarded sources = before ++ s :: after →
      ∀ r ∈ s.occurrences, r.Resolves (Earlier before) (arena sources) := by
  have hSound := Checker.sound_run (sources.flatMap parse)
  refine ⟨?_, ?_, hSound.complete, hSound.ascending.nodup, hSound.resolved⟩
  · intro before meanwhile after _
    obtain ⟨more, hMore⟩ := (Checker.first.run before).2.run_grows meanwhile
    refine ⟨(Checker.sound_run before).numbered, more, ?_⟩
    rw [← hMore, Checker.run, transduce_append]
    rfl
  · intro before s after hEvents
    have hMem : Event.statement s ∈ sources.flatMap parse := by simp [hEvents]
    obtain ⟨source, -, hParsed⟩ := List.mem_flatMap.mp hMem
    have hBlank := blank_of_parse source s (List.mem_filterMap.mpr ⟨_, hParsed, rfl⟩)
    exact Checker.checkStatement_follows s hBlank _ _

/-- The second statement of the first text is rejected after its lambda was given a variable. In the
last statement of the second text the names `x` and `y` of lambdas hide the global ones. -/
theorem resolution_sound_shadowed :
    ∃ sources : List String, sources = ["var x = 2 out map({1, x}, x -> x + y)",
        "var y = {1, x} out map(y, x -> reduce(y, x, a y -> a + y))"] ∧
      (∃ before s after, sources.flatMap parse = before ++ .statement s :: after ∧
        before.length = 1 ∧ (Checker.checkStatement (Checker.first.run before).2.globals s
          (Checker.first.run before).2.declared).result = none ∧
        (Checker.first.run before).2.FillsOnce s) ∧
      ∃ before s r, forwarded sources = before ++ [s] ∧ before.length = 2 ∧ r ∈ s.occurrences ∧
        r.name = "y" ∧ r.enclosing.map Binding.name = ["y", "a", "x"] ∧
        r.Resolves (Earlier before) (arena sources) := by
  have h := resolution_sound ["var x = 2 out map({1, x}, x -> x + y)",
    "var y = {1, x} out map(y, x -> reduce(y, x, a y -> a + y))"]
  refine ⟨_, rfl, ?_, ?_⟩
  · have hEvents : ["var x = 2 out map({1, x}, x -> x + y)",
          "var y = {1, x} out map(y, x -> reduce(y, x, a y -> a + y))"].flatMap parse =
        parse "var x = 2" ++
          .statement ((statements (parse "var x = 2 out map({1, x}, x -> x + y)")).get
            ⟨1, by decide +kernel⟩) ::
          parse "var y = {1, x} out map(y, x -> reduce(y, x, a y -> a + y))" := by
      decide +kernel
    exact ⟨_, _, _, hEvents, by decide +kernel, by decide +kernel, h.2.1 _ _ _ hEvents⟩
  · have hSplit := (List.dropLast_concat_getLast (by decide +kernel :
      forwarded ["var x = 2 out map({1, x}, x -> x + y)",
        "var y = {1, x} out map(y, x -> reduce(y, x, a y -> a + y))"] ≠ [])).symm
    have hResolves := h.2.2.2.2 _ _ [] hSplit
    refine ⟨_, _, List.getLast _ (by decide +kernel), hSplit, ?_, List.getLast_mem _, ?_, ?_,
      hResolves _ (List.getLast_mem _)⟩
    · decide +kernel
    · decide +kernel
    · decide +kernel

end Progression
