import Progression.Proofs.Executions

/-! The typing rules, in terms of names and types alone. The checker decides them: it accepts an
expression exactly if the rules give it a type, which is then the only one, and it reports something
exactly if it rejects. -/

namespace Progression

/-- The types of the names in scope. -/
abbrev Context := String → Option Ty

/-- The rules. A parameter of a lambda hides every other variable of its name in the body. -/
inductive Expr.HasType : Context → Expr → Ty → Prop where
  | int {context : Context} {mark : Mark} {value : Int64} :
      HasType context (.int mark value) .number
  | float {context : Context} {mark : Mark} {value : Float} :
      HasType context (.float mark value) .number
  | ref {context : Context} {mark : Mark} {name : String} {target : Option Nat} {type : Ty}
      (hName : context name = some type) : HasType context (.ref mark name target) type
  | binary {context : Context} {mark : Mark} {op : Operator} {left right : Expr}
      (hLeft : HasType context left .number) (hRight : HasType context right .number) :
      HasType context (.binary mark op left right) .number
  | paren {context : Context} {mark : Mark} {inner : Expr} {type : Ty}
      (hInner : HasType context inner type) : HasType context (.paren mark inner) type
  | range {context : Context} {mark : Mark} {lower upper : Expr}
      (hLower : HasType context lower .number) (hUpper : HasType context upper .number) :
      HasType context (.range mark lower upper) (.sequence .number)
  | map {context : Context} {mark : Mark} {argument body : Expr} {param : Binding}
      {element type : Ty} (hArgument : HasType context argument (.sequence element))
      (hBody : HasType (Function.update context param.name (some element)) body type) :
      HasType context (.map mark argument param body) (.sequence type)
  | reduce {context : Context} {mark : Mark} {sequence base body : Expr}
      {accumulator element : Binding} {elementType type : Ty}
      (hSequence : HasType context sequence (.sequence elementType))
      (hBase : HasType context base type) (hNames : element.name ≠ accumulator.name)
      (hBody : HasType (Function.update (Function.update context accumulator.name (some type))
        element.name (some elementType)) body type) :
      HasType context (.reduce mark sequence base accumulator element body) type

/-- The rules give an expression at most one type. -/
theorem Expr.HasType.unique {context : Context} {e : Expr} {type other : Ty}
    (h : e.HasType context type) (hOther : e.HasType context other) : type = other := by
  induction h generalizing other with
  | int | float | binary | range =>
      cases hOther
      rfl
  | ref hName =>
      cases hOther with
      | ref hSame => exact Option.some.inj (hName.symm.trans hSame)
  | paren _ ih =>
      cases hOther with
      | paren hInner => exact ih hInner
  | map _ _ ihArgument ihBody =>
      cases hOther with
      | map hArgument hBody =>
          cases ihArgument hArgument
          rw [ihBody hBody]
  | reduce _ _ _ _ _ ihBase _ =>
      cases hOther with
      | reduce _ hBase _ _ => exact ihBase hBase

namespace Scope

/-- The types of the names in a scope. Of all declarations of a name, read from the innermost frame
outwards, the first one counts. -/
def context (scope : Scope) (declared : Array Variable) : Context := fun name =>
  ((scope.current :: scope.outer).flatten.lookup name).bind fun id =>
    declared[id]?.map Variable.type

/-- Every name that the scope declares stands for one of the first `size` variables. -/
def Within (scope : Scope) (size : Nat) : Prop := ∀ name id, scope.lookup name = some id → id < size

theorem findSome?_lookup (frames : List Declarations) (name : String) :
    frames.findSome? (List.lookup name) = frames.flatten.lookup name := by
  induction frames with
  | nil => rfl
  | cons frame frames ih =>
      rw [List.findSome?_cons, ih, List.flatten_cons, List.lookup_append]
      cases frame.lookup name <;> rfl

theorem context_apply (scope : Scope) (declared : Array Variable) (name : String) :
    scope.context declared name =
      (scope.lookup name).bind fun id => declared[id]?.map Variable.type := by
  rw [context, lookup, findSome?_lookup]

variable {scope : Scope} {declared : Array Variable}

theorem context_eq_some_iff {name : String} {type : Ty} :
    scope.context declared name = some type ↔
      ∃ id v, scope.lookup name = some id ∧ declared[id]? = some v ∧ v.type = type := by
  simp [context_apply, Option.bind_eq_some_iff]

/-- The scope gives its names the types of the context, and goes on to do so when more variables are
declared. -/
structure Supplies (scope : Scope) (declared : Array Variable) (context : Context) : Prop where
  within : scope.Within declared.size
  same : scope.context declared = context

namespace Supplies

variable {context : Context}

theorem grow (h : scope.Supplies declared context) (more : Array Variable) :
    scope.Supplies (declared ++ more) context := by
  constructor
  · intro name id hLookup
    have hLess := h.within name id hLookup
    rw [Array.size_append]
    omega
  · rw [← h.same]
    funext name
    rw [context_apply, context_apply]
    cases hLookup : scope.lookup name with
    | none => rfl
    | some id => simp [Array.getElem?_append_left (h.within name id hLookup)]

theorem enter (h : scope.Supplies declared context) : scope.enter.Supplies declared context := by
  constructor
  · exact h.within
  · rw [← h.same]
    funext name
    rw [context_apply, context_apply, lookup_enter]

/-- A new variable gives its type to its name and leaves the other names alone. -/
theorem declare (h : scope.Supplies declared context) (name : String) (type : Ty) :
    (scope.declare name declared.size).Supplies (declared.push ⟨declared.size, name, type⟩)
      (Function.update context name (some type)) := by
  constructor
  · intro other id hLookup
    rw [lookup_declare] at hLookup
    rw [Array.size_push]
    split at hLookup
    · cases hLookup
      omega
    · have hLess := h.within other id hLookup
      omega
  · funext other
    rw [context_apply, lookup_declare, Function.update_apply]
    by_cases hSame : other = name
    · simp [hSame]
    · rw [if_neg hSame, if_neg hSame, Array.push_eq_append, ← context_apply, (h.grow _).same]

end Supplies

end Scope

namespace Expr

/-- What passes the checker has its type by the rules. -/
theorem Passed.hasType {e checked : Expr} {type : Ty} {scope : Scope}
    {declared final : Array Variable} {context : Context}
    (h : e.Passed scope declared type checked final) (hScope : scope.Supplies declared context) :
    e.HasType context type := by
  induction h generalizing context with
  | int => exact .int
  | float => exact .float
  | ref hLookup hVariable =>
      rw [← hScope.same]
      exact .ref (Scope.context_eq_some_iff.mpr ⟨_, _, hLookup, hVariable, rfl⟩)
  | binary hLeft _ ihLeft ihRight =>
      obtain ⟨more, rfl⟩ := hLeft.grows
      exact .binary (ihLeft hScope) (ihRight (hScope.grow more))
  | paren _ ih => exact .paren (ih hScope)
  | range hLower _ ihLower ihUpper =>
      obtain ⟨more, rfl⟩ := hLower.grows
      exact .range (ihLower hScope) (ihUpper (hScope.grow more))
  | @map _ _ _ _ _ _ _ _ _ param element _ hArgument _ ihArgument ihBody =>
      obtain ⟨more, rfl⟩ := hArgument.grows
      have hLambda := (hScope.grow more).enter.declare param.name element
      exact .map (ihArgument hScope) (ihBody hLambda)
  | @reduce _ _ _ _ _ _ _ _ _ _ _ _ accumulator element elementType type hBase hSequence hNames _
      ihBase ihSequence ihBody =>
      obtain ⟨more, rfl⟩ := hBase.grows
      have hMiddle := hScope.grow more
      obtain ⟨rest, rfl⟩ := hSequence.grows
      have hLambda := ((hMiddle.grow rest).enter.declare accumulator.name type).declare
        element.name elementType
      rw [Array.size_push] at hLambda
      exact .reduce (ihSequence hMiddle) (ihBase hScope) hNames (ihBody hLambda)

/-- What has a type by the rules passes the checker with this type. -/
theorem HasType.passed {e : Expr} {type : Ty} {context : Context} (h : e.HasType context type)
    {scope : Scope} {declared : Array Variable} (hScope : scope.Supplies declared context) :
    ∃ checked final, e.Passed scope declared type checked final := by
  induction h generalizing scope declared with
  | int => exact ⟨_, _, .int⟩
  | float => exact ⟨_, _, .float⟩
  | ref hName =>
      rw [← hScope.same] at hName
      obtain ⟨id, v, hLookup, hVariable, rfl⟩ := Scope.context_eq_some_iff.mp hName
      exact ⟨_, _, .ref hLookup hVariable⟩
  | binary _ _ ihLeft ihRight =>
      obtain ⟨left, middle, hLeft⟩ := ihLeft hScope
      obtain ⟨more, rfl⟩ := hLeft.grows
      obtain ⟨right, final, hRight⟩ := ihRight (hScope.grow more)
      exact ⟨_, _, .binary hLeft hRight⟩
  | paren _ ih =>
      obtain ⟨inner, final, hInner⟩ := ih hScope
      exact ⟨_, _, .paren hInner⟩
  | range _ _ ihLower ihUpper =>
      obtain ⟨lower, middle, hLower⟩ := ihLower hScope
      obtain ⟨more, rfl⟩ := hLower.grows
      obtain ⟨upper, final, hUpper⟩ := ihUpper (hScope.grow more)
      exact ⟨_, _, .range hLower hUpper⟩
  | @map _ _ _ _ param element _ _ _ ihArgument ihBody =>
      obtain ⟨argument, middle, hArgument⟩ := ihArgument hScope
      obtain ⟨more, rfl⟩ := hArgument.grows
      have hLambda := (hScope.grow more).enter.declare param.name element
      obtain ⟨body, final, hBody⟩ := ihBody hLambda
      exact ⟨_, _, .map hArgument hBody⟩
  | @reduce _ _ _ _ _ accumulator element elementType type _ _ hNames _ ihSequence ihBase ihBody =>
      obtain ⟨base, early, hBase⟩ := ihBase hScope
      obtain ⟨more, rfl⟩ := hBase.grows
      have hMiddle := hScope.grow more
      obtain ⟨sequence, middle, hSequence⟩ := ihSequence hMiddle
      obtain ⟨rest, rfl⟩ := hSequence.grows
      have hLambda := ((hMiddle.grow rest).enter.declare accumulator.name type).declare
        element.name elementType
      rw [Array.size_push] at hLambda
      obtain ⟨body, final, hBody⟩ := ihBody hLambda
      exact ⟨_, _, .reduce hBase hSequence hNames hBody⟩

theorem check_eq_some_iff {e : Expr} {type : Ty} {scope : Scope} {declared : Array Variable}
    {context : Context} (hScope : scope.Supplies declared context) :
    (∃ checked, (e.check scope declared).result = some (type, checked)) ↔
      e.HasType context type := by
  constructor
  · rintro ⟨checked, hResult⟩
    exact (passed_of_accepts ⟨hResult, rfl⟩).hasType hScope
  · intro h
    obtain ⟨checked, final, hPassed⟩ := h.passed hScope
    exact ⟨checked, hPassed.accepts.1⟩

end Expr

/-- Something is reported exactly if the verdict is a rejection, and only about types. -/
structure Verdict.Explained {α : Type} (verdict : Verdict α) : Prop where
  rejects : verdict.result = none ↔ verdict.reports ≠ []
  stage : ∀ d ∈ verdict.reports, d.stage = .type

namespace Check

theorem explained_pure {α : Type} (a : α) (declared : Array Variable) :
    ((pure a : Check α) declared).Explained := by
  constructor
  · simp [pure, accept]
  · simp [pure, accept]

theorem explained_reject {α : Type} (cause : TypeError) (span : Span) (declared : Array Variable) :
    ((reject cause span : Check α) declared).Explained := by
  constructor
  · simp [reject]
  · simp [reject, Diagnostic.stage, Cause.stage]

theorem explained_bind {α β : Type} {first : Check α} {next : α → Check β}
    (hFirst : ∀ declared, (first declared).Explained)
    (hNext : ∀ a declared, (next a declared).Explained) (declared : Array Variable) :
    ((first >>= next) declared).Explained := by
  have hOne := hFirst declared
  simp only [bind, andThen]
  cases hResult : (first declared).result with
  | none =>
      constructor
      · simpa [hResult] using hOne.rejects
      · exact hOne.stage
  | some a =>
      -- An accepting part has reported nothing, so all reports are those of the part after it.
      have hSilent : (first declared).reports = [] := by simpa [hResult] using hOne.rejects
      have hTwo := hNext a (first declared).declared
      constructor
      · simpa [hSilent] using hTwo.rejects
      · simpa [hSilent] using hTwo.stage

theorem explained_both {α β : Type} {first : Check α} {second : Check β}
    (hFirst : ∀ declared, (first declared).Explained)
    (hSecond : ∀ declared, (second declared).Explained) (declared : Array Variable) :
    ((both first second) declared).Explained := by
  have hOne := hFirst declared
  have hTwo := hSecond (first declared).declared
  constructor
  · cases hLeft : (first declared).result with
    | none =>
        have hReports : (first declared).reports ≠ [] := hOne.rejects.mp hLeft
        simp [both, hLeft, hReports]
    | some a =>
        have hSilent : (first declared).reports = [] := by simpa [hLeft] using hOne.rejects
        simpa [both, hLeft, hSilent] using hTwo.rejects
  · intro d hMem
    rcases List.mem_append.mp hMem with hMem | hMem
    · exact hOne.stage d hMem
    · exact hTwo.stage d hMem

theorem explained_closed : Closed fun _ check => ∀ declared, (check declared).Explained where
  pure := explained_pure
  reject := explained_reject
  resolve scope name span declared := by
    rw [resolve]
    split
    · exact explained_pure _ _
    · exact explained_reject _ _ _
  declare binding type declared := ⟨by simp [declare], by simp [declare]⟩
  bind := explained_bind
  both := explained_both

end Check

/-- What the rules ask of a statement: an expression with a type, and for an assignment a name that
the global frame does not hold yet. -/
def Statement.Allowed (globals : Scope) (context : Context) : Statement → Prop
  | assign _ target value =>
      (∃ type, value.HasType context type) ∧ ∀ id, (target.name, id) ∉ globals.current
  | out _ value => ∃ type, value.HasType context type
  | print _ _ => True

theorem Scope.declares_eq_false_iff {scope : Scope} {name : String} :
    scope.declares name = false ↔ ∀ id, (name, id) ∉ scope.current := by
  rw [declares, Option.isSome_eq_false_iff, Option.isNone_iff_eq_none, List.lookup_eq_none_iff]
  constructor
  · intro h id hMem
    simpa using h (name, id) hMem
  · rintro h ⟨other, id⟩ hMem
    rw [bne_iff_ne]
    rintro rfl
    exact h id hMem

open Check in
theorem Checker.checkStatement_isSome_iff {globals : Scope} {declared : Array Variable}
    {context : Context} (hGlobals : globals.Supplies declared context) (s : Statement) :
    (checkStatement globals s declared).result.isSome = true ↔ s.Allowed globals context := by
  rw [Option.isSome_iff_exists]
  cases s with
  | assign span target value =>
      constructor
      · rintro ⟨⟨checked, scope⟩, hResult⟩
        obtain ⟨⟨type, e⟩, middle, hValue, hRest⟩ := accepts_bind.mp ⟨hResult, rfl⟩
        dsimp only at hRest
        split at hRest
        · exact absurd hRest not_accepts_reject
        · next hDeclares =>
            have hType := (Expr.passed_of_accepts hValue).hasType hGlobals
            exact ⟨⟨type, hType⟩,
              Scope.declares_eq_false_iff.mp (Bool.eq_false_iff.mpr hDeclares)⟩
      · rintro ⟨⟨type, hType⟩, hNew⟩
        obtain ⟨e, middle, hPassed⟩ := hType.passed hGlobals
        have hDeclares := Scope.declares_eq_false_iff.mpr hNew
        have hAccepts : (checkStatement globals (.assign span target value)).Accepts declared
            (.assign span (target.resolved middle.size) e,
              globals.declare target.name middle.size)
            (middle.push ⟨middle.size, target.name, type⟩) := by
          refine accepts_bind.mpr ⟨_, _, hPassed.accepts, ?_⟩
          dsimp only
          rw [if_neg (by simp [hDeclares])]
          exact accepts_bind.mpr ⟨_, _, accepts_declare.mpr ⟨rfl, rfl⟩,
            accepts_pure.mpr ⟨rfl, rfl⟩⟩
        exact ⟨_, hAccepts.1⟩
  | out span value =>
      constructor
      · rintro ⟨⟨checked, scope⟩, hResult⟩
        obtain ⟨⟨type, e⟩, middle, hValue, -⟩ := accepts_bind.mp ⟨hResult, rfl⟩
        exact ⟨type, (Expr.passed_of_accepts hValue).hasType hGlobals⟩
      · rintro ⟨type, hType⟩
        obtain ⟨e, middle, hPassed⟩ := hType.passed hGlobals
        have hAccepts : (checkStatement globals (.out span value)).Accepts declared
            (.out span e, globals) middle :=
          accepts_bind.mpr ⟨_, _, hPassed.accepts, accepts_pure.mpr ⟨rfl, rfl⟩⟩
        exact ⟨_, hAccepts.1⟩
  | print span text =>
      constructor
      · intro _
        trivial
      · intro _
        exact ⟨_, rfl⟩

theorem Scope.supplies_empty : Scope.empty.Supplies #[] fun _ => none := by
  constructor
  · intro name id hLookup
    cases hLookup
  · rfl

/-- The checker decides the rules, in every scope that knows only declared variables. It accepts an
expression with the types that the rules give it, of which there is at most one, and a statement if
the rules allow it; it reports something, and only about types, exactly if it rejects. -/
theorem check_decides_rules (scope : Scope) (declared : Array Variable)
    (hWithin : scope.Within declared.size) :
    (∀ e : Expr,
      (∀ type, (∃ checked, (e.check scope declared).result = some (type, checked)) ↔
        e.HasType (scope.context declared) type) ∧
      (∀ type other, e.HasType (scope.context declared) type →
        e.HasType (scope.context declared) other → type = other) ∧
      (e.check scope declared).Explained) ∧
    ∀ s : Statement,
      ((Checker.checkStatement scope s declared).result.isSome = true ↔
        s.Allowed scope (scope.context declared)) ∧
      (Checker.checkStatement scope s declared).Explained := by
  have hScope : scope.Supplies declared (scope.context declared) := ⟨hWithin, rfl⟩
  constructor
  · intro e
    refine ⟨fun type => Expr.check_eq_some_iff hScope, ?_, ?_⟩
    · intro type other hType hOther
      exact hType.unique hOther
    · exact e.check_closed Check.explained_closed scope declared
  · intro s
    exact ⟨Checker.checkStatement_isSome_iff hScope s,
      Checker.checkStatement_closed Check.explained_closed scope s declared⟩

/-- The global sequence `x` is hidden by a number `x` inside a lambda, where `x + 1` has a type and
`{1, y}` has none. -/
theorem check_decides_rules_shadowed :
    ∃ (scope : Scope) (declared : Array Variable) (mark : Mark),
      scope = (Scope.empty.declare "x" 0).enter.declare "x" 1 ∧
      declared = #[⟨0, "x", .sequence .number⟩, ⟨1, "x", .number⟩] ∧
      scope.Within declared.size ∧
      (Expr.binary mark .add (.ref mark "x" none) (.int mark 1)).HasType
        (scope.context declared) .number ∧
      (∀ type, ¬(Expr.range mark (.int mark 1) (.ref mark "y" none)).HasType
        (scope.context declared) type) ∧
      ((Expr.range mark (.int mark 1) (.ref mark "y" none)).check scope declared).reports ≠ [] := by
  have hScope := (Scope.supplies_empty.declare "x" (.sequence .number)).enter.declare "x" .number
  have h := (check_decides_rules _ _ hScope.within).1
  refine ⟨_, _, ⟨.point .first, none⟩, rfl, rfl, hScope.within, ?_, ?_, ?_⟩
  · exact ((h _).1 .number).mp ⟨_, rfl⟩
  · intro type hType
    obtain ⟨checked, hResult⟩ := ((h _).1 type).mpr hType
    cases hResult
  · exact (h _).2.2.rejects.mp rfl

end Progression
