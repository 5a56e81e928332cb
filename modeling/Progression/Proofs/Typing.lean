import Mathlib.Logic.Function.Basic
import Progression.Typing.Checker

/-! What the checker guarantees of the trees that it hands on: every name stands for a variable in
scope, every node carries its type, and the variables of a lambda are new. -/

namespace Progression

namespace Check

variable {α β : Type}

/-- The check accepts with a result, and then these variables are declared. -/
def Accepts (check : Check α) (declared : Array Variable) (a : α) (final : Array Variable) : Prop :=
  (check declared).result = some a ∧ (check declared).declared = final

/-- The check keeps all variables, whether it accepts or not. -/
def Grows (check : Check α) : Prop :=
  ∀ declared, ∃ more, (check declared).declared = declared ++ more

theorem accepts_pure {a b : α} {declared final : Array Variable} :
    (pure a : Check α).Accepts declared b final ↔ a = b ∧ declared = final := by
  simp [Accepts, pure, accept]

theorem not_accepts_reject {cause : TypeError} {span : Span} {a : α}
    {declared final : Array Variable} :
    ¬(reject cause span : Check α).Accepts declared a final := by
  simp [Accepts, reject]

/-- Both parts of a check accept in turn. -/
theorem accepts_bind {first : Check α} {next : α → Check β} {b : β}
    {declared final : Array Variable} :
    (first >>= next).Accepts declared b final ↔
      ∃ a middle, first.Accepts declared a middle ∧ (next a).Accepts middle b final := by
  simp only [Accepts, bind, andThen]
  cases (first declared).result with
  | none => simp
  | some a =>
      constructor
      · intro h
        exact ⟨a, _, ⟨rfl, rfl⟩, h⟩
      · rintro ⟨_, _, ⟨hSame, rfl⟩, h⟩
        cases hSame
        exact h

theorem accepts_both {first : Check α} {second : Check β} {a : α} {b : β}
    {declared final : Array Variable} :
    (both first second).Accepts declared (a, b) final ↔
      ∃ middle, first.Accepts declared a middle ∧ second.Accepts middle b final := by
  simp only [Accepts, both, Option.bind_eq_some_iff, Option.map_eq_some_iff]
  constructor
  · rintro ⟨⟨a', hFirst, b', hSecond, hPair⟩, hFinal⟩
    obtain ⟨rfl, rfl⟩ := Prod.mk.inj hPair
    exact ⟨_, ⟨hFirst, rfl⟩, hSecond, hFinal⟩
  · rintro ⟨middle, ⟨hFirst, rfl⟩, hSecond, hFinal⟩
    exact ⟨⟨a, hFirst, b, hSecond, rfl⟩, hFinal⟩

theorem accepts_declare {binding : Binding} {type : Ty} {id : Nat}
    {declared final : Array Variable} :
    (declare binding type).Accepts declared id final ↔
      declared.size = id ∧ declared.push ⟨declared.size, binding.name, type⟩ = final := by
  simp [Accepts, declare]

theorem accepts_resolve {scope : Scope} {name : String} {span : Span} {v : Variable}
    {declared final : Array Variable} :
    (resolve scope name span).Accepts declared v final ↔
      (∃ id, scope.lookup name = some id ∧ declared[id]? = some v) ∧ declared = final := by
  rw [← Option.bind_eq_some_iff]
  simp only [Accepts, resolve, Option.bind_eq_bind]
  cases (scope.lookup name).bind (declared[·]?) with
  | none => simp [reject]
  | some w => simp [accept]

theorem grows_pure (a : α) : (pure a : Check α).Grows := fun declared => ⟨#[], by simp [pure, accept]⟩

theorem grows_reject (cause : TypeError) (span : Span) : (reject cause span : Check α).Grows :=
  fun declared => ⟨#[], by simp [reject]⟩

theorem grows_resolve (scope : Scope) (name : String) (span : Span) :
    (resolve scope name span).Grows := by
  intro declared
  refine ⟨#[], ?_⟩
  rw [Array.append_empty, resolve]
  split <;> rfl

theorem grows_declare (binding : Binding) (type : Ty) : (declare binding type).Grows :=
  fun declared => ⟨#[⟨declared.size, binding.name, type⟩], by simp [declare]⟩

theorem grows_bind {first : Check α} {next : α → Check β} (hFirst : first.Grows)
    (hNext : ∀ a, (next a).Grows) : (first >>= next).Grows := by
  intro declared
  obtain ⟨more, hMore⟩ := hFirst declared
  simp only [bind, andThen]
  cases (first declared).result with
  | none => exact ⟨more, hMore⟩
  | some a =>
      obtain ⟨rest, hRest⟩ := hNext a (first declared).declared
      exact ⟨more ++ rest, by rw [hRest, hMore, Array.append_assoc]⟩

theorem grows_both {first : Check α} {second : Check β} (hFirst : first.Grows)
    (hSecond : second.Grows) : (both first second).Grows := by
  intro declared
  obtain ⟨more, hMore⟩ := hFirst declared
  obtain ⟨rest, hRest⟩ := hSecond (first declared).declared
  exact ⟨more ++ rest, by rw [both, hRest, hMore, Array.append_assoc]⟩

theorem Accepts.grows {check : Check α} {a : α} {declared final : Array Variable}
    (h : check.Accepts declared a final) (hGrows : check.Grows) :
    ∃ more, final = declared ++ more := by
  obtain ⟨more, hMore⟩ := hGrows declared
  exact ⟨more, h.2.symm.trans hMore⟩

/-- A property that all checks without parts have and that checks have whose parts have it. -/
structure Closed (property : (α : Type) → Check α → Prop) : Prop where
  pure {α : Type} (a : α) : property α (pure a)
  reject {α : Type} (cause : TypeError) (span : Span) : property α (reject cause span)
  resolve (scope : Scope) (name : String) (span : Span) :
    property Variable (resolve scope name span)
  declare (binding : Binding) (type : Ty) : property Nat (declare binding type)
  bind {α β : Type} {first : Check α} {next : α → Check β} (hFirst : property α first)
    (hNext : ∀ a, property β (next a)) : property β (first >>= next)
  both {α β : Type} {first : Check α} {second : Check β} (hFirst : property α first)
    (hSecond : property β second) : property (α × β) (both first second)

theorem grows_closed : Closed fun _ check => check.Grows where
  pure := grows_pure
  reject := grows_reject
  resolve := grows_resolve
  declare := grows_declare
  bind := grows_bind
  both := grows_both

end Check

/-- Checking an expression has every property that is passed on from the parts of a check. -/
theorem Expr.check_closed {property : (α : Type) → Check α → Prop} (h : Check.Closed property)
    (e : Expr) (scope : Scope) : property _ (e.check scope) := by
  induction e generalizing scope with
  | int => exact h.pure _
  | float => exact h.pure _
  | ref mark name _ => exact h.bind (h.resolve _ _ _) fun _ => h.pure _
  | binary mark op left right ihLeft ihRight =>
      refine h.bind (ihLeft scope) fun a => h.bind (ihRight scope) fun b => ?_
      dsimp only
      split
      · exact h.pure _
      · exact h.reject _ _
  | paren mark inner ih => exact h.bind (ih scope) fun _ => h.pure _
  | range mark lower upper ihLower ihUpper =>
      refine h.bind (ihLower scope) fun a => h.bind (ihUpper scope) fun b => ?_
      dsimp only
      split
      · exact h.reject _ _
      · split
        · exact h.reject _ _
        · exact h.pure _
  | map mark argument param body ihArgument ihBody =>
      refine h.bind (ihArgument scope) fun a => ?_
      dsimp only
      split
      · exact h.reject _ _
      · exact h.bind (h.declare _ _) fun id => h.bind (ihBody _) fun _ => h.pure _
  | reduce mark sequence base accumulator element body ihSequence ihBase ihBody =>
      refine h.bind (h.both (ihBase scope) (ihSequence scope)) fun both => ?_
      dsimp only
      split
      · exact h.reject _ _
      · refine h.bind (h.declare _ _) fun accumulatorId => ?_
        split
        · exact h.reject _ _
        · refine h.bind (h.declare _ _) fun elementId => h.bind (ihBody _) fun b => ?_
          split
          · exact h.pure _
          · exact h.reject _ _

/-- Checking an expression keeps all variables that were declared before. -/
theorem Expr.check_grows (e : Expr) (scope : Scope) : (e.check scope).Grows :=
  e.check_closed Check.grows_closed scope

/-- The types of the variables that can be referred to, by their numbers. -/
abbrev Types := Nat → Option Ty

/-- The tree is filled in as the checker does it: references stand for variables of the recorded
type, and a lambda is about variables that are not in use around it. -/
inductive Expr.Typed : Types → Expr → Ty → Prop where
  | int {types : Types} {mark : Mark} {value : Int64} :
      Typed types (.int (mark.typed .number) value) .number
  | float {types : Types} {mark : Mark} {value : Float} :
      Typed types (.float (mark.typed .number) value) .number
  | ref {types : Types} {mark : Mark} {name : String} {id : Nat} {type : Ty}
      (hType : types id = some type) : Typed types (.ref (mark.typed type) name (some id)) type
  | binary {types : Types} {mark : Mark} {op : Operator} {left right : Expr}
      (hLeft : Typed types left .number) (hRight : Typed types right .number) :
      Typed types (.binary (mark.typed .number) op left right) .number
  | paren {types : Types} {mark : Mark} {inner : Expr} {type : Ty}
      (hInner : Typed types inner type) : Typed types (.paren (mark.typed type) inner) type
  | range {types : Types} {mark : Mark} {lower upper : Expr}
      (hLower : Typed types lower .number) (hUpper : Typed types upper .number) :
      Typed types (.range (mark.typed (.sequence .number)) lower upper) (.sequence .number)
  | map {types : Types} {mark : Mark} {argument body : Expr} {param : Binding} {id : Nat}
      {element type : Ty} (hArgument : Typed types argument (.sequence element))
      (hNew : types id = none) (hBody : Typed (Function.update types id (some element)) body type) :
      Typed types (.map (mark.typed (.sequence type)) argument (param.resolved id) body)
        (.sequence type)
  | reduce {types : Types} {mark : Mark} {sequence base body : Expr}
      {accumulator element : Binding} {a e : Nat} {elementType type : Ty}
      (hSequence : Typed types sequence (.sequence elementType)) (hBase : Typed types base type)
      (hAccumulator : types a = none) (hElement : types e = none) (hDistinct : a ≠ e)
      (hBody : Typed (Function.update (Function.update types a (some type)) e (some elementType))
        body type) :
      Typed types (.reduce (mark.typed type) sequence base (accumulator.resolved a)
        (element.resolved e) body) type

/-- The outermost node carries the type. -/
theorem Expr.Typed.type_eq {types : Types} {e : Expr} {type : Ty} (h : e.Typed types type) :
    e.type = some type := by
  cases h <;> rfl

/-- The types are those of the declared variables that a scope leads to, and no variable that is
still to be declared has one. -/
structure Agrees (types : Types) (scope : Scope) (declared : Array Variable) : Prop where
  visible : ∀ name id, scope.lookup name = some id →
    ∃ v, declared[id]? = some v ∧ v.id = id ∧ types id = some v.type
  unknown : ∀ id, declared.size ≤ id → types id = none

namespace Agrees

variable {types : Types} {scope : Scope} {declared : Array Variable}

theorem lt_size (h : Agrees types scope declared) {id : Nat} {type : Ty}
    (hType : types id = some type) : id < declared.size := by
  by_contra hBeyond
  rw [h.unknown id (by omega)] at hType
  cases hType

theorem grow (h : Agrees types scope declared) (more : Array Variable) :
    Agrees types scope (declared ++ more) := by
  constructor
  · intro name id hLookup
    obtain ⟨v, hVariable, hId, hType⟩ := h.visible name id hLookup
    refine ⟨v, ?_, hId, hType⟩
    rw [Array.getElem?_append_left (h.lt_size hType), hVariable]
  · intro id hBeyond
    rw [Array.size_append] at hBeyond
    exact h.unknown id (by omega)

theorem enter (h : Agrees types scope declared) : Agrees types scope.enter declared :=
  ⟨fun name id hLookup => h.visible name id (by rwa [Scope.lookup_enter] at hLookup), h.unknown⟩

/-- A new variable comes into scope together with its type. -/
theorem declare (h : Agrees types scope declared) (name : String) (type : Ty) :
    Agrees (Function.update types declared.size (some type)) (scope.declare name declared.size)
      (declared.push ⟨declared.size, name, type⟩) := by
  constructor
  · intro other id hLookup
    rw [Scope.lookup_declare] at hLookup
    split at hLookup
    · cases hLookup
      exact ⟨_, Array.getElem?_push_size, rfl, Function.update_self _ _ _⟩
    · obtain ⟨v, hVariable, hId, hType⟩ := h.visible other id hLookup
      have hLess := h.lt_size hType
      refine ⟨v, ?_, hId, ?_⟩
      · rw [Array.getElem?_push, if_neg (by omega), hVariable]
      · rw [Function.update_of_ne (by omega), hType]
  · intro id hBeyond
    rw [Array.size_push] at hBeyond
    rw [Function.update_of_ne (by omega)]
    exact h.unknown id (by omega)

end Agrees

/-- All that it can mean for an expression to pass the checker: its type, the expression with
everything filled in, and the variables declared afterwards. -/
inductive Expr.Passed : Scope → Array Variable → Expr → Ty → Expr → Array Variable → Prop where
  | int {scope : Scope} {declared : Array Variable} {mark : Mark} {value : Int64} :
      Passed scope declared (.int mark value) .number (.int (mark.typed .number) value) declared
  | float {scope : Scope} {declared : Array Variable} {mark : Mark} {value : Float} :
      Passed scope declared (.float mark value) .number (.float (mark.typed .number) value) declared
  | ref {scope : Scope} {declared : Array Variable} {mark : Mark} {name : String}
      {target : Option Nat} {id : Nat} {v : Variable} (hLookup : scope.lookup name = some id)
      (hVariable : declared[id]? = some v) :
      Passed scope declared (.ref mark name target) v.type
        (.ref (mark.typed v.type) name (some v.id)) declared
  | binary {scope : Scope} {declared middle final : Array Variable} {mark : Mark} {op : Operator}
      {left right left' right' : Expr} (hLeft : Passed scope declared left .number left' middle)
      (hRight : Passed scope middle right .number right' final) :
      Passed scope declared (.binary mark op left right) .number
        (.binary (mark.typed .number) op left' right') final
  | paren {scope : Scope} {declared final : Array Variable} {mark : Mark} {inner inner' : Expr}
      {type : Ty} (hInner : Passed scope declared inner type inner' final) :
      Passed scope declared (.paren mark inner) type (.paren (mark.typed type) inner') final
  | range {scope : Scope} {declared middle final : Array Variable} {mark : Mark}
      {lower upper lower' upper' : Expr} (hLower : Passed scope declared lower .number lower' middle)
      (hUpper : Passed scope middle upper .number upper' final) :
      Passed scope declared (.range mark lower upper) (.sequence .number)
        (.range (mark.typed (.sequence .number)) lower' upper') final
  | map {scope : Scope} {declared middle final : Array Variable} {mark : Mark}
      {argument body argument' body' : Expr} {param : Binding} {element type : Ty}
      (hArgument : Passed scope declared argument (.sequence element) argument' middle)
      (hBody : Passed (scope.enter.declare param.name middle.size)
        (middle.push ⟨middle.size, param.name, element⟩) body type body' final) :
      Passed scope declared (.map mark argument param body) (.sequence type)
        (.map (mark.typed (.sequence type)) argument' (param.resolved middle.size) body') final
  | reduce {scope : Scope} {declared early middle final : Array Variable} {mark : Mark}
      {sequence base body sequence' base' body' : Expr} {accumulator element : Binding}
      {elementType type : Ty} (hBase : Passed scope declared base type base' early)
      (hSequence : Passed scope early sequence (.sequence elementType) sequence' middle)
      (hNames : element.name ≠ accumulator.name)
      (hBody : Passed
        ((scope.enter.declare accumulator.name middle.size).declare element.name (middle.size + 1))
        ((middle.push ⟨middle.size, accumulator.name, type⟩).push
          ⟨middle.size + 1, element.name, elementType⟩) body type body' final) :
      Passed scope declared (.reduce mark sequence base accumulator element body) type
        (.reduce (mark.typed type) sequence' base' (accumulator.resolved middle.size)
          (element.resolved (middle.size + 1)) body') final

/-- The frame of a lambda whose first parameter has just been declared. -/
theorem Scope.declares_enter_declare {scope : Scope} {name other : String} {id : Nat} :
    (scope.enter.declare name id).declares other = true ↔ other = name := by
  by_cases h : other = name
  · simp [declares, declare, enter, h]
  · simp [declares, declare, enter, List.lookup_cons, h, beq_eq_false_iff_ne.mpr h]

open Check in
theorem Expr.passed_of_accepts {e checked : Expr} {type : Ty} {scope : Scope}
    {declared final : Array Variable}
    (h : (e.check scope).Accepts declared (type, checked) final) :
    e.Passed scope declared type checked final := by
  induction e generalizing checked type scope declared final with
  | int mark value =>
      obtain ⟨hPair, rfl⟩ := accepts_pure.mp h
      cases hPair
      exact .int
  | float mark value =>
      obtain ⟨hPair, rfl⟩ := accepts_pure.mp h
      cases hPair
      exact .float
  | ref mark name target =>
      obtain ⟨v, middle, hResolve, hPure⟩ := accepts_bind.mp h
      obtain ⟨⟨id, hLookup, hVariable⟩, rfl⟩ := accepts_resolve.mp hResolve
      obtain ⟨hPair, rfl⟩ := accepts_pure.mp hPure
      cases hPair
      exact .ref hLookup hVariable
  | binary mark op left right ihLeft ihRight =>
      obtain ⟨⟨leftType, left'⟩, middle, hLeft, hRest⟩ := accepts_bind.mp h
      obtain ⟨⟨rightType, right'⟩, last, hRight, hEnd⟩ := accepts_bind.mp hRest
      dsimp only at hEnd
      split at hEnd
      · next hNumbers =>
          obtain ⟨rfl, rfl⟩ := hNumbers
          obtain ⟨hPair, rfl⟩ := accepts_pure.mp hEnd
          cases hPair
          exact .binary (ihLeft hLeft) (ihRight hRight)
      · exact absurd hEnd not_accepts_reject
  | paren mark inner ih =>
      obtain ⟨⟨innerType, inner'⟩, middle, hInner, hEnd⟩ := accepts_bind.mp h
      obtain ⟨hPair, rfl⟩ := accepts_pure.mp hEnd
      cases hPair
      exact .paren (ih hInner)
  | range mark lower upper ihLower ihUpper =>
      obtain ⟨⟨lowerType, lower'⟩, middle, hLower, hRest⟩ := accepts_bind.mp h
      obtain ⟨⟨upperType, upper'⟩, last, hUpper, hEnd⟩ := accepts_bind.mp hRest
      dsimp only at hEnd
      split at hEnd
      · exact absurd hEnd not_accepts_reject
      · next hLowerType =>
          split at hEnd
          · exact absurd hEnd not_accepts_reject
          · next hUpperType =>
              obtain rfl := not_not.mp hLowerType
              obtain rfl := not_not.mp hUpperType
              obtain ⟨hPair, rfl⟩ := accepts_pure.mp hEnd
              cases hPair
              exact .range (ihLower hLower) (ihUpper hUpper)
  | map mark argument param body ihArgument ihBody =>
      obtain ⟨⟨argumentType, argument'⟩, middle, hArgument, hRest⟩ := accepts_bind.mp h
      cases argumentType with
      | number => exact absurd hRest not_accepts_reject
      | sequence element =>
          obtain ⟨id, inner, hDeclare, hLambda⟩ := accepts_bind.mp hRest
          obtain ⟨rfl, rfl⟩ := accepts_declare.mp hDeclare
          obtain ⟨⟨bodyType, body'⟩, last, hBody, hEnd⟩ := accepts_bind.mp hLambda
          obtain ⟨hPair, rfl⟩ := accepts_pure.mp hEnd
          cases hPair
          exact .map (ihArgument hArgument) (ihBody hBody)
  | reduce mark sequence base accumulator element body ihSequence ihBase ihBody =>
      obtain ⟨⟨⟨baseType, base'⟩, sequenceType, sequence'⟩, middle, hBoth, hRest⟩ :=
        accepts_bind.mp h
      obtain ⟨early, hBase, hSequence⟩ := accepts_both.mp hBoth
      cases sequenceType with
      | number => exact absurd hRest not_accepts_reject
      | sequence elementType =>
          obtain ⟨a, first, hDeclare, hLambda⟩ := accepts_bind.mp hRest
          obtain ⟨rfl, rfl⟩ := accepts_declare.mp hDeclare
          dsimp only at hLambda
          split at hLambda
          · exact absurd hLambda not_accepts_reject
          · next hDeclares =>
              obtain ⟨e, second, hDeclareElement, hLast⟩ := accepts_bind.mp hLambda
              obtain ⟨rfl, rfl⟩ := accepts_declare.mp hDeclareElement
              obtain ⟨⟨bodyType, body'⟩, last, hBody, hEnd⟩ := accepts_bind.mp hLast
              dsimp only at hEnd
              split at hEnd
              · next hBodyType =>
                  subst hBodyType
                  obtain ⟨hPair, rfl⟩ := accepts_pure.mp hEnd
                  cases hPair
                  rw [Array.size_push] at hBody ⊢
                  exact .reduce (ihBase hBase) (ihSequence hSequence)
                    (fun hSame => hDeclares (Scope.declares_enter_declare.mpr hSame)) (ihBody hBody)
              · exact absurd hEnd not_accepts_reject

open Check in
theorem Expr.Passed.accepts {e checked : Expr} {type : Ty} {scope : Scope}
    {declared final : Array Variable} (h : e.Passed scope declared type checked final) :
    (e.check scope).Accepts declared (type, checked) final := by
  induction h with
  | int => exact accepts_pure.mpr ⟨rfl, rfl⟩
  | float => exact accepts_pure.mpr ⟨rfl, rfl⟩
  | ref hLookup hVariable =>
      exact accepts_bind.mpr ⟨_, _, accepts_resolve.mpr ⟨⟨_, hLookup, hVariable⟩, rfl⟩,
        accepts_pure.mpr ⟨rfl, rfl⟩⟩
  | binary _ _ ihLeft ihRight =>
      refine accepts_bind.mpr ⟨_, _, ihLeft, accepts_bind.mpr ⟨_, _, ihRight, ?_⟩⟩
      exact accepts_pure.mpr ⟨rfl, rfl⟩
  | paren _ ih => exact accepts_bind.mpr ⟨_, _, ih, accepts_pure.mpr ⟨rfl, rfl⟩⟩
  | range _ _ ihLower ihUpper =>
      refine accepts_bind.mpr ⟨_, _, ihLower, accepts_bind.mpr ⟨_, _, ihUpper, ?_⟩⟩
      exact accepts_pure.mpr ⟨rfl, rfl⟩
  | map _ _ ihArgument ihBody =>
      refine accepts_bind.mpr ⟨_, _, ihArgument, ?_⟩
      exact accepts_bind.mpr ⟨_, _, accepts_declare.mpr ⟨rfl, rfl⟩,
        accepts_bind.mpr ⟨_, _, ihBody, accepts_pure.mpr ⟨rfl, rfl⟩⟩⟩
  | reduce _ _ hNames _ ihBase ihSequence ihBody =>
      refine accepts_bind.mpr ⟨_, _, accepts_both.mpr ⟨_, ihBase, ihSequence⟩, ?_⟩
      refine accepts_bind.mpr ⟨_, _, accepts_declare.mpr ⟨rfl, rfl⟩, ?_⟩
      dsimp only
      rw [if_neg fun hDeclares => hNames (Scope.declares_enter_declare.mp hDeclares)]
      refine accepts_bind.mpr ⟨_, _, accepts_declare.mpr ⟨Array.size_push _, rfl⟩, ?_⟩
      rw [Array.size_push]
      refine accepts_bind.mpr ⟨_, _, ihBody, ?_⟩
      rw [if_pos rfl]
      exact accepts_pure.mpr ⟨rfl, rfl⟩

/-- Passing keeps all variables that were declared before. -/
theorem Expr.Passed.grows {e checked : Expr} {type : Ty} {scope : Scope}
    {declared final : Array Variable} (h : e.Passed scope declared type checked final) :
    ∃ more, final = declared ++ more := h.accepts.grows (e.check_grows scope)

/-- What passes is typed. -/
theorem Expr.Passed.typed {e checked : Expr} {type : Ty} {types : Types} {scope : Scope}
    {declared final : Array Variable} (h : e.Passed scope declared type checked final)
    (hAgrees : Agrees types scope declared) : checked.Typed types type := by
  induction h generalizing types with
  | int => exact .int
  | float => exact .float
  | @ref scope declared mark name target id v hLookup hVariable =>
      obtain ⟨w, hSame, hId, hType⟩ := hAgrees.visible name id hLookup
      rw [hVariable] at hSame
      cases hSame
      exact .ref (hId ▸ hType)
  | binary hLeft _ ihLeft ihRight =>
      obtain ⟨more, rfl⟩ := hLeft.grows
      exact .binary (ihLeft hAgrees) (ihRight (hAgrees.grow more))
  | paren _ ih => exact .paren (ih hAgrees)
  | range hLower _ ihLower ihUpper =>
      obtain ⟨more, rfl⟩ := hLower.grows
      exact .range (ihLower hAgrees) (ihUpper (hAgrees.grow more))
  | @map _ _ _ _ _ _ _ _ _ param element _ hArgument _ ihArgument ihBody =>
      obtain ⟨more, rfl⟩ := hArgument.grows
      have hBefore := hAgrees.grow more
      exact .map (ihArgument hAgrees) (hBefore.unknown _ (Nat.le_refl _))
        (ihBody (hBefore.enter.declare param.name element))
  | @reduce _ _ _ _ _ _ _ _ _ _ _ _ accumulator element elementType type hBase hSequence _ _
      ihBase ihSequence ihBody =>
      obtain ⟨more, rfl⟩ := hBase.grows
      have hMiddle := hAgrees.grow more
      obtain ⟨rest, rfl⟩ := hSequence.grows
      have hBefore := hMiddle.grow rest
      have hInner := (hBefore.enter.declare accumulator.name type).declare element.name elementType
      rw [Array.size_push] at hInner
      exact .reduce (ihSequence hMiddle) (ihBase hAgrees) (hBefore.unknown _ (Nat.le_refl _))
        (hBefore.unknown _ (by omega)) (by omega) (ihBody hInner)

/-- What the checker accepts is typed, whatever it was before. -/
theorem Expr.check_typed {e checked : Expr} {type : Ty} {types : Types} {scope : Scope}
    {declared final : Array Variable} (hAgrees : Agrees types scope declared)
    (h : (e.check scope).Accepts declared (type, checked) final) : checked.Typed types type :=
  (passed_of_accepts h).typed hAgrees

end Progression
