import Progression.Proofs.Names
import Progression.Proofs.Rules

/-! Statements that leave no trace in the statements after them. What a session makes of a statement
depends on the types and values of the global names alone and not on the numbers of variables, so
leaving out a statement that declares no name changes nothing but those numbers. -/

namespace Progression

/-- The binding without the number of its variable. -/
def Binding.anonymous (binding : Binding) : Binding := { binding with id := none }

/-- The expression without the numbers of variables. Its types stay. -/
def Expr.anonymous : Expr → Expr
  | int mark value => int mark value
  | float mark value => float mark value
  | ref mark name _ => ref mark name none
  | binary mark op left right => binary mark op left.anonymous right.anonymous
  | paren mark inner => paren mark inner.anonymous
  | range mark lower upper => range mark lower.anonymous upper.anonymous
  | map mark argument param body => map mark argument.anonymous param.anonymous body.anonymous
  | reduce mark sequence base accumulator element body =>
      reduce mark sequence.anonymous base.anonymous accumulator.anonymous element.anonymous
        body.anonymous

/-- The statement without the numbers of variables. -/
def Statement.anonymous : Statement → Statement
  | assign span target value => assign span target.anonymous value.anonymous
  | out span value => out span value.anonymous
  | print span text => print span text

/-- The account without the numbers of variables. -/
def Account.anonymous (account : Account) : Account :=
  { account with checked := account.checked.map Statement.anonymous }

namespace Expr

theorem mark_anonymous (e : Expr) : e.anonymous.mark = e.mark := by
  cases e <;> rfl

theorem span_anonymous (e : Expr) : e.anonymous.span = e.span := by
  rw [span, span, mark_anonymous]

theorem type_anonymous (e : Expr) : e.anonymous.type = e.type := by
  rw [type, type, mark_anonymous]

theorem named_anonymous (config : Config) (e : Expr) (names : Names) :
    e.anonymous.named config names = e.named config names := by
  induction e generalizing names with
  | int | float | ref => rfl
  | binary mark op left right ihLeft ihRight => simp only [anonymous, named, ihLeft, ihRight]
  | paren mark inner ih => exact ih names
  | range mark lower upper ihLower ihUpper =>
      simp only [anonymous, named, ihLower, ihUpper, span_anonymous]
  | map mark argument param body ihArgument ihBody =>
      simp only [anonymous, named, ihArgument, ihBody, Binding.anonymous]
  | reduce mark sequence base accumulator element body ihSequence ihBase ihBody =>
      simp only [anonymous, named, ihSequence, ihBase, ihBody, Binding.anonymous]

end Expr

theorem Named.execute_anonymous (config : Config) (names : Names) (s : Statement) :
    Named.execute config names s.anonymous = Named.execute config names s := by
  cases s with
  | assign span target value =>
      simp only [Statement.anonymous, execute, Expr.named_anonymous, Binding.anonymous]
  | out span value => simp only [Statement.anonymous, execute, Expr.named_anonymous]
  | print span text => rfl

/-- The verdicts report the same, and their results are related unless both reject. -/
structure Verdict.Alike {α : Type} (related : α → α → Prop) (one two : Verdict α) : Prop where
  reports : one.reports = two.reports
  result : Option.Rel related one.result two.result

theorem Verdict.Alike.map_result {α β : Type} {f : α → β} {one two : Verdict α}
    (h : Alike (fun a b => f a = f b) one two) : one.result.map f = two.result.map f := by
  obtain ⟨-, hResult⟩ := h
  generalize one.result = first at hResult
  generalize two.result = second at hResult
  cases hResult with
  | none => rfl
  | some hSame => exact congrArg some hSame

/-- The same type, and the same tree up to the numbers of variables. -/
def Twins (one two : Ty × Expr) : Prop := one.1 = two.1 ∧ one.2.anonymous = two.2.anonymous

namespace Check

variable {α β : Type} {related : α → α → Prop} {following : β → β → Prop}
  {declared others : Array Variable}

theorem alike_pure {a b : α} (h : related a b) :
    Verdict.Alike related ((pure a : Check α) declared) ((pure b : Check α) others) :=
  ⟨rfl, .some h⟩

theorem alike_reject (cause : TypeError) {span other : Span} (hSpan : span = other) :
    Verdict.Alike related (reject cause span declared) (reject cause other others) :=
  ⟨by rw [hSpan]; rfl, .none⟩

theorem alike_bind {first second : Check α} {next after : α → Check β}
    (hFirst : Verdict.Alike related (first declared) (second others))
    (hNext : ∀ a b, related a b → Verdict.Alike following (next a (first declared).declared)
      (after b (second others).declared)) :
    Verdict.Alike following ((first >>= next) declared) ((second >>= after) others) := by
  obtain ⟨hReports, hResult⟩ := hFirst
  simp only [bind, andThen]
  generalize (first declared).result = one at hResult
  generalize (second others).result = two at hResult
  cases hResult with
  | none => exact ⟨hReports, .none⟩
  | some h =>
      obtain ⟨hMore, hFinal⟩ := hNext _ _ h
      exact ⟨congrArg₂ (· ++ ·) hReports hMore, hFinal⟩

theorem alike_both {first second : Check α} {next after : Check β}
    (hFirst : Verdict.Alike related (first declared) (second others))
    (hNext : Verdict.Alike following (next (first declared).declared)
      (after (second others).declared)) :
    Verdict.Alike (fun one two => related one.1 two.1 ∧ following one.2 two.2)
      (both first next declared) (both second after others) := by
  constructor
  · simp only [both, hFirst.reports, hNext.reports]
  · simp only [both]
    obtain ⟨-, hResult⟩ := hFirst
    obtain ⟨-, hFinal⟩ := hNext
    generalize (first declared).result = one at hResult
    generalize (second others).result = two at hResult
    cases hResult with
    | none => exact .none
    | some h =>
        generalize (next (first declared).declared).result = three at hFinal
        generalize (after (second others).declared).result = four at hFinal
        cases hFinal with
        | none => exact .none
        | some hLast => exact .some ⟨h, hLast⟩

theorem alike_resolve {scope other : Scope} {context : Context}
    (h : scope.Supplies declared context) (hOther : other.Supplies others context)
    (name : String) (span : Span) :
    Verdict.Alike (fun one two => one.type = two.type) (resolve scope name span declared)
      (resolve other name span others) := by
  have hSame : (scope.lookup name >>= (declared[·]?)).map Variable.type =
      (other.lookup name >>= (others[·]?)).map Variable.type := by
    have hContext := congrFun (h.same.trans hOther.same.symm) name
    rw [Scope.context_apply, Scope.context_apply] at hContext
    simpa [Option.map_bind, Function.comp_def] using hContext
  simp only [resolve]
  generalize scope.lookup name >>= (declared[·]?) = one at hSame ⊢
  generalize other.lookup name >>= (others[·]?) = two at hSame ⊢
  cases one with
  | none =>
      rw [Option.map_none, eq_comm, Option.map_eq_none_iff] at hSame
      subst hSame
      exact alike_reject _ rfl
  | some v =>
      obtain ⟨w, rfl, hType⟩ := Option.map_eq_some_iff.mp hSame.symm
      exact alike_pure hType.symm

theorem declare_bind (binding : Binding) (type : Ty) (next : Nat → Check α)
    (declared : Array Variable) :
    (declare binding type >>= next) declared =
      next declared.size (declared.push ⟨declared.size, binding.name, type⟩) := rfl

end Check

theorem Expr.span_eq_of_anonymous {one two : Expr} (h : one.anonymous = two.anonymous) :
    one.span = two.span := by
  rw [← span_anonymous, h, span_anonymous]

open Check in
/-- The checker says the same of an expression in two scopes that give the names the same types. -/
theorem Expr.check_alike (e : Expr) {scope other : Scope} {declared others : Array Variable}
    {context : Context} (h : scope.Supplies declared context)
    (hOther : other.Supplies others context) :
    Verdict.Alike Twins (e.check scope declared) (e.check other others) := by
  -- The numbers of variables differ between the sides from the beginning, so only the types of the
  -- names are held in common.
  induction e generalizing scope other declared others context with
  | int => exact alike_pure ⟨rfl, rfl⟩
  | float => exact alike_pure ⟨rfl, rfl⟩
  | ref mark name target =>
      apply alike_bind (alike_resolve h hOther name mark.span)
      intro v w hType
      exact alike_pure ⟨hType, by rw [anonymous, anonymous, hType]⟩
  | binary mark op left right ihLeft ihRight =>
      obtain ⟨more, hMore⟩ := left.check_grows scope declared
      obtain ⟨rest, hRest⟩ := left.check_grows other others
      apply alike_bind (ihLeft h hOther)
      rintro ⟨type, a⟩ ⟨_, b⟩ ⟨rfl, hLeft⟩
      rw [hMore, hRest]
      apply alike_bind (ihRight (h.grow more) (hOther.grow rest))
      rintro ⟨rightType, c⟩ ⟨_, d⟩ ⟨rfl, hRight⟩
      dsimp only at hLeft hRight ⊢
      split
      · exact alike_pure ⟨rfl, by simp only [anonymous, hLeft, hRight]⟩
      · exact alike_reject _ rfl
  | paren mark inner ih =>
      apply alike_bind (ih h hOther)
      rintro ⟨type, a⟩ ⟨_, b⟩ ⟨rfl, hInner⟩
      dsimp only at hInner
      exact alike_pure ⟨rfl, by simp only [anonymous, hInner]⟩
  | range mark lower upper ihLower ihUpper =>
      obtain ⟨more, hMore⟩ := lower.check_grows scope declared
      obtain ⟨rest, hRest⟩ := lower.check_grows other others
      apply alike_bind (ihLower h hOther)
      rintro ⟨lowerType, a⟩ ⟨_, b⟩ ⟨rfl, hLower⟩
      rw [hMore, hRest]
      apply alike_bind (ihUpper (h.grow more) (hOther.grow rest))
      rintro ⟨upperType, c⟩ ⟨_, d⟩ ⟨rfl, hUpper⟩
      dsimp only at hLower hUpper ⊢
      split
      · exact alike_reject _ (span_eq_of_anonymous hLower)
      · split
        · exact alike_reject _ (span_eq_of_anonymous hUpper)
        · exact alike_pure ⟨rfl, by simp only [anonymous, hLower, hUpper]⟩
  | map mark argument param body ihArgument ihBody =>
      obtain ⟨more, hMore⟩ := argument.check_grows scope declared
      obtain ⟨rest, hRest⟩ := argument.check_grows other others
      apply alike_bind (ihArgument h hOther)
      rintro ⟨type, a⟩ ⟨_, b⟩ ⟨rfl, hArgument⟩
      rw [hMore, hRest]
      cases type with
      | number => exact alike_reject _ (span_eq_of_anonymous hArgument)
      | sequence element =>
          have hLambda := (h.grow more).enter.declare param.name element
          have hOtherLambda := (hOther.grow rest).enter.declare param.name element
          dsimp only
          rw [declare_bind, declare_bind]
          apply alike_bind (ihBody hLambda hOtherLambda)
          rintro ⟨bodyType, c⟩ ⟨_, d⟩ ⟨rfl, hBody⟩
          dsimp only at hArgument hBody
          exact alike_pure ⟨rfl, by simp only [anonymous, hArgument, hBody]; rfl⟩
  | reduce mark sequence base accumulator element body ihSequence ihBase ihBody =>
      obtain ⟨more, hMore⟩ := base.check_grows scope declared
      obtain ⟨rest, hRest⟩ := base.check_grows other others
      have hBoth := alike_both (ihBase h hOther) <| by
        rw [hMore, hRest]
        exact ihSequence (h.grow more) (hOther.grow rest)
      obtain ⟨most, hMost⟩ := grows_both (base.check_grows scope) (sequence.check_grows scope)
        declared
      obtain ⟨last, hLast⟩ := grows_both (base.check_grows other) (sequence.check_grows other)
        others
      apply alike_bind hBoth
      rintro ⟨⟨baseType, a⟩, ⟨type, c⟩⟩ ⟨⟨_, b⟩, ⟨_, d⟩⟩ ⟨⟨rfl, hBase⟩, ⟨rfl, hSequence⟩⟩
      rw [hMost, hLast]
      dsimp only at hBase hSequence ⊢
      cases type with
      | number => exact alike_reject _ (span_eq_of_anonymous hSequence)
      | sequence elementType =>
          have hInner := (h.grow most).enter.declare accumulator.name baseType
          have hOtherInner := (hOther.grow last).enter.declare accumulator.name baseType
          dsimp only
          rw [declare_bind, declare_bind]
          simp only [Scope.declares_enter_declare]
          split
          · exact alike_reject _ rfl
          · rw [declare_bind, declare_bind]
            apply alike_bind (ihBody (hInner.declare element.name elementType)
              (hOtherInner.declare element.name elementType))
            rintro ⟨bodyType, x⟩ ⟨_, y⟩ ⟨rfl, hBody⟩
            dsimp only at hBody ⊢
            split
            · exact alike_pure ⟨rfl, by simp only [anonymous, hBase, hSequence, hBody]; rfl⟩
            · exact alike_reject _ (span_eq_of_anonymous hBody)

/-- The types of the names once the checked statement is known. -/
def Context.after (context : Context) : Statement → Context
  | .assign _ target value => Function.update context target.name value.type
  | .out _ _ => context
  | .print _ _ => context

theorem Context.after_anonymous (context : Context) (s : Statement) :
    context.after s.anonymous = context.after s := by
  cases s with
  | assign span target value =>
      simp only [Statement.anonymous, after, Expr.type_anonymous, Binding.anonymous]
  | out | print => rfl

theorem Context.after_of_target (context : Context) {s : Statement} (h : s.target? = none) :
    context.after s = context := by
  cases s with
  | assign => cases h
  | out | print => rfl

theorem Named.execute_of_target (config : Config) (names : Names) {s : Statement}
    (h : s.target? = none) : (execute config names s).2 = names := by
  cases s with
  | assign => cases h
  | out | print => rfl

namespace Checker

/-- The types of the global names. -/
def context (checker : Checker) : Context := checker.globals.context checker.declared

namespace Ordered

variable {checker other : Checker}

theorem supplies (h : checker.Ordered) :
    checker.globals.Supplies checker.declared checker.context := by
  obtain ⟨-, types, hAgrees⟩ := h
  constructor
  · intro name id hLookup
    obtain ⟨v, -, -, hType⟩ := hAgrees.visible name id hLookup
    exact hAgrees.lt_size hType
  · rfl

/-- A name is taken exactly if it has a type. -/
theorem declares (h : checker.Ordered) (name : String) :
    checker.globals.declares name = (checker.context name).isSome := by
  obtain ⟨hFlat, types, hAgrees⟩ := h
  have hLookup : checker.globals.current.lookup name = checker.globals.lookup name := by
    rw [Scope.lookup, Scope.findSome?_lookup, hFlat, List.flatten_singleton]
  rw [Scope.declares, hLookup, context, Scope.context_apply]
  cases hId : checker.globals.lookup name with
  | none => rfl
  | some id =>
      obtain ⟨v, hVariable, -⟩ := hAgrees.visible name id hId
      simp [hVariable]

theorem context_grow (h : checker.Ordered) (more : Array Variable) :
    context ⟨checker.declared ++ more, checker.globals⟩ = checker.context :=
  (h.supplies.grow more).same

theorem context_passed (h : checker.Ordered) {s : Statement} {next : Checker}
    (hPassed : checker.Passed s next) : next.context = checker.context.after s := by
  cases hPassed with
  | @assign span target value checked type final hValue hNew =>
      obtain ⟨types, hAgrees⟩ := h.agrees
      have hType := ((Expr.passed_of_accepts hValue).typed hAgrees).type_eq
      obtain ⟨more, rfl⟩ := hValue.grows (value.check_grows _)
      rw [Context.after, hType]
      exact ((h.supplies.grow more).declare target.name type).same
  | @out span value checked type final hValue =>
      obtain ⟨more, rfl⟩ := hValue.grows (value.check_grows _)
      exact h.context_grow more
  | print => rfl

open Check in
/-- Two checkers for which the global names have the same types say the same of a statement. -/
theorem checkStatement_alike (h : checker.Ordered) (hOther : other.Ordered)
    (hContext : checker.context = other.context) (s : Statement) :
    Verdict.Alike (fun one two => one.1.anonymous = two.1.anonymous)
      (checkStatement checker.globals s checker.declared)
      (checkStatement other.globals s other.declared) := by
  have hSupplies := hOther.supplies
  rw [← hContext] at hSupplies
  cases s with
  | assign span target value =>
      apply alike_bind (value.check_alike h.supplies hSupplies)
      rintro ⟨type, a⟩ ⟨_, b⟩ ⟨rfl, hValue⟩
      dsimp only at hValue ⊢
      rw [h.declares, hOther.declares, hContext]
      split
      · exact alike_reject _ rfl
      · rw [declare_bind, declare_bind]
        exact alike_pure (by simp only [Statement.anonymous, hValue]; rfl)
  | out span value =>
      apply alike_bind (value.check_alike h.supplies hSupplies)
      rintro ⟨type, a⟩ ⟨_, b⟩ ⟨rfl, hValue⟩
      dsimp only at hValue
      exact alike_pure (by simp only [Statement.anonymous, hValue])
  | print span text => exact alike_pure rfl

end Ordered

open Check in
/-- What declares no name does not do so after it was checked. -/
theorem target_of_accepts {globals scope : Scope} {s checked : Statement}
    {declared final : Array Variable}
    (h : (checkStatement globals s).Accepts declared (checked, scope) final)
    (hTarget : s.target? = none) : checked.target? = none := by
  cases s with
  | assign => cases hTarget
  | out span value =>
      obtain ⟨_, _, -, hEnd⟩ := accepts_bind.mp h
      obtain ⟨hPair, -⟩ := accepts_pure.mp hEnd
      cases hPair
      rfl
  | print span text =>
      obtain ⟨hPair, -⟩ := accepts_pure.mp h
      cases hPair
      rfl

/-- What a checker hands on of a statement, and what it reports about it. -/
theorem step_handed (checker : Checker) (s : Statement) :
    statements (checker.step (.statement s)).1 =
        ((checkStatement checker.globals s checker.declared).result.map Prod.fst).toList ∧
      reports (checker.step (.statement s)).1 =
        (checkStatement checker.globals s checker.declared).reports := by
  rw [step]
  cases (checkStatement checker.globals s checker.declared).result with
  | none => exact ⟨statements_reports _, reports_map_report _⟩
  | some pair =>
      dsimp only
      rw [statements_append, statements_reports, reports_append, reports_map_report]
      exact ⟨rfl, List.append_nil _⟩

end Checker

namespace Session

theorem account_eq (config : Config) (session : Session) (s : Statement) :
    (session.account config s).checked =
        (Checker.checkStatement session.checker.globals s session.checker.declared).result.map
          Prod.fst ∧
      (session.account config s).findings =
        (Checker.checkStatement session.checker.globals s session.checker.declared).reports := by
  obtain ⟨hHanded, hReports⟩ := session.checker.step_handed s
  refine ⟨?_, hReports⟩
  simp only [account, hHanded, Option.head?_toList]

/-- The sessions agree on the types and the values of the global names. -/
structure Alike (one two : Session) : Prop where
  ordered : one.checker.Ordered
  other : two.checker.Ordered
  context : one.checker.context = two.checker.context
  names : one.names = two.names

theorem Alike.grow {one two : Session} (h : one.Alike two) (more rest : Array Variable) :
    Alike ⟨⟨one.checker.declared ++ more, one.checker.globals⟩, one.machine⟩
      ⟨⟨two.checker.declared ++ rest, two.checker.globals⟩, two.machine⟩ where
  ordered := h.ordered.grow more
  other := h.other.grow rest
  context := by rw [h.ordered.context_grow, h.other.context_grow, h.context]
  names := h.names

/-- The same statement, up to the numbers of variables, gives the same answer in both sessions. -/
theorem Alike.passed (config : Config) {one two : Session} (h : one.Alike two)
    {s t : Statement} {next other : Checker} (hPassed : one.checker.Passed s next)
    (hOther : two.checker.Passed t other) (hSame : s.anonymous = t.anonymous) :
    Execution.answer config ⟨one, s⟩ = Execution.answer config ⟨two, t⟩ ∧
      Alike ⟨next, (one.machine.execute config s).2⟩
        ⟨other, (two.machine.execute config t).2⟩ := by
  obtain ⟨answer, hAnswer, hNamed⟩ := execute_named config h.ordered hPassed
  obtain ⟨otherAnswer, hOtherAnswer, hOtherNamed⟩ := execute_named config h.other hOther
  have hExecute : Named.execute config one.names s = Named.execute config two.names t := by
    rw [← Named.execute_anonymous, hSame, Named.execute_anonymous, h.names]
  rw [hNamed, hOtherNamed, Prod.mk.injEq, List.singleton_inj] at hExecute
  constructor
  · rw [hAnswer, hOtherAnswer, hExecute.1]
  · refine ⟨h.ordered.passed hPassed, h.other.passed hOther, ?_, hExecute.2⟩
    rw [h.ordered.context_passed hPassed, h.other.context_passed hOther, h.context,
      ← Context.after_anonymous, hSame, Context.after_anonymous]

/-- Sessions that agree on the global names make the same of a statement and go on to agree. -/
theorem Alike.account (config : Config) {one two : Session} (h : one.Alike two) (s : Statement) :
    (one.account config s).anonymous = (two.account config s).anonymous ∧
      (one.stepAccounted config s).2.Alike (two.stepAccounted config s).2 := by
  have hVerdict := h.ordered.checkStatement_alike h.other h.context s
  have hOne := one.account_eq config s
  have hTwo := two.account_eq config s
  have hFindings : (one.account config s).findings = (two.account config s).findings := by
    rw [hOne.2, hTwo.2, hVerdict.reports]
  have hChecked : (one.account config s).checked.map Statement.anonymous =
      (two.account config s).checked.map Statement.anonymous := by
    rw [hOne.1, hTwo.1, Option.map_map, Option.map_map]
    exact hVerdict.map_result
  have hSettles := one.settles_account config s
  have hOther := two.settles_account config s
  generalize one.account config s = account at *
  generalize two.account config s = otherAccount at *
  generalize (one.stepAccounted config s).2 = next at *
  generalize (two.stepAccounted config s).2 = otherNext at *
  cases hSettles with
  | rejected findings more =>
      cases hOther with
      | rejected others rest =>
          cases hFindings
          exact ⟨rfl, h.grow more rest⟩
      | passed => cases hChecked
  | passed findings hPassed =>
      cases hOther with
      | rejected => cases hChecked
      | passed others hOtherPassed =>
          cases hFindings
          have hSame := Option.some.inj hChecked
          obtain ⟨hAnswer, hNext⟩ := h.passed config hPassed hOtherPassed hSame
          exact ⟨by rw [Account.anonymous, Account.anonymous, hChecked, hAnswer], hNext⟩

/-- A statement that declares no name, or is rejected, leaves the global names as they are. -/
theorem alike_of_inert (config : Config) {session : Session} (h : session.checker.Ordered)
    {s : Statement} (hInert : s.target? = none ∨ (session.account config s).checked = none) :
    (session.stepAccounted config s).2.Alike session := by
  have hTarget : ∀ checked, (session.account config s).checked = some checked →
      checked.target? = none := by
    intro checked hChecked
    rcases hInert with hSource | hRejected
    · rw [(session.account_eq config s).1, Option.map_eq_some_iff] at hChecked
      obtain ⟨⟨_, globals⟩, hResult, rfl⟩ := hChecked
      exact Checker.target_of_accepts ⟨hResult, rfl⟩ hSource
    · rw [hRejected] at hChecked
      cases hChecked
  have hSettles := session.settles_account config s
  generalize (session.stepAccounted config s).2 = next at *
  generalize session.account config s = account at *
  cases hSettles with
  | rejected findings more => exact ⟨h.grow more, h, h.context_grow more, rfl⟩
  | @passed checked checker findings hPassed =>
      have hNone := hTarget checked rfl
      obtain ⟨answer, -, hNamed⟩ := execute_named config h hPassed
      refine ⟨h.passed hPassed, h, ?_, ?_⟩
      · exact (h.context_passed hPassed).trans (Context.after_of_target _ hNone)
      · rw [← Named.execute_of_target config session.names hNone, hNamed]

/-- Sessions that agree on the global names make the same of a whole program. -/
theorem Alike.accounts (config : Config) {one two : Session} (h : one.Alike two)
    (program : List Statement) :
    (transduce (stepAccounted config) one program).1.map Account.anonymous =
      (transduce (stepAccounted config) two program).1.map Account.anonymous := by
  induction program generalizing one two with
  | nil => rfl
  | cons s program ih =>
      obtain ⟨hAccount, hNext⟩ := h.account config s
      rw [transduce_cons, transduce_cons, List.map_append, List.map_append, ih hNext]
      simp only [stepAccounted, List.map_singleton, hAccount]

/-- The session that the statements of a program lead to. -/
def reached (config : Config) (program : List Statement) : Session :=
  (transduce (stepAccounted config) Session.first program).2

/-- The checker is in order, and of the statements so far those that have passed gave an answer. -/
structure Answered (history : List Account) (session : Session) : Prop where
  ordered : session.checker.Ordered
  answers : ∀ account ∈ history, account.answer.isSome = account.checked.isSome

theorem Answered.step (config : Config) {history : List Account} {session : Session}
    (h : Answered history session) (s : Statement) :
    Answered (history ++ (session.stepAccounted config s).1)
      (session.stepAccounted config s).2 := by
  have hSettles := session.settles_account config s
  have hHistory : history ++ (session.stepAccounted config s).1 =
      history ++ [session.account config s] := rfl
  rw [hHistory]
  generalize (session.stepAccounted config s).2 = next at *
  generalize session.account config s = account at *
  cases hSettles with
  | rejected findings more =>
      refine ⟨h.ordered.grow more, ?_⟩
      simpa [or_imp, forall_and] using h.answers
  | passed findings hPassed =>
      obtain ⟨answer, hAnswer, -⟩ := execute_named config h.ordered hPassed
      refine ⟨h.ordered.passed hPassed, ?_⟩
      simpa [or_imp, forall_and, hAnswer] using h.answers

end Session

theorem answered_accounts (config : Config) (program : List Statement) :
    Session.Answered (accounts config program) (Session.reached config program) := by
  have hFirst : Session.Answered [] Session.first := ⟨Checker.ordered_first, by simp⟩
  exact transduce_history _ (fun _ _ s h => h.step config s) program hFirst

theorem accounts_append (config : Config) (before after : List Statement) :
    accounts config (before ++ after) = accounts config before ++
      (transduce (Session.stepAccounted config) (Session.reached config before) after).1 := by
  rw [accounts, transduce_append]
  rfl

theorem length_accounts (config : Config) (program : List Statement) :
    (accounts config program).length = program.length := by
  rw [accounts]
  generalize Session.first = session
  induction program generalizing session with
  | nil => rfl
  | cons s program ih =>
      rw [transduce_cons, List.length_append, ih, List.length_cons, Nat.add_comm]
      rfl

/-- A statement that is rejected where it stands, or declares no name, can be left out: up to the
numbers of variables, every other statement has the same account without it. It is accepted or
rejected with the same reports, its expressions have the same types, and running it, which always
gives an answer, gives the same value and the same reports. -/
theorem accounts_without_inert (config : Config) (before after : List Statement) (s : Statement)
    (hInert : s.target? = none ∨
      ((Session.reached config before).account config s).checked = none) :
    ((accounts config (before ++ s :: after)).eraseIdx before.length).map Account.anonymous =
        (accounts config (before ++ after)).map Account.anonymous ∧
      ∀ account ∈ accounts config (before ++ after),
        account.answer.isSome = account.checked.isSome := by
  have hAlike := Session.alike_of_inert config (answered_accounts config before).ordered hInert
  have hRest := hAlike.accounts config after
  have hLength := length_accounts config before
  constructor
  · rw [accounts_append, accounts_append,
      List.eraseIdx_append_of_length_le (Nat.le_of_eq hLength), hLength, Nat.sub_self,
      transduce_cons, List.map_append, List.map_append]
    exact congrArg _ hRest
  · exact (answered_accounts config (before ++ after)).answers

/-- Between the two assignments stands a statement whose lambda is given a variable before its body
is rejected. Without it the variable `y` has another number. -/
theorem accounts_without_inert_rejected :
    ∃ (config : Config) (before after : List Statement) (s : Statement),
      before = statements (parse "var x = 2") ∧
      [s] = statements (parse "out map({1, 2}, y -> z)") ∧
      after = statements (parse "var y = x + 1 out y") ∧
      ((Session.reached config before).account config s).checked = none ∧
      ((accounts config (before ++ s :: after)).eraseIdx 1).map Account.checked ≠
        (accounts config (before ++ after)).map Account.checked ∧
      ((accounts config (before ++ s :: after)).eraseIdx 1).map Account.anonymous =
        (accounts config (before ++ after)).map Account.anonymous := by
  refine ⟨Config.ofWorkers 1, _, _,
    (statements (parse "out map({1, 2}, y -> z)")).head (by decide +kernel),
    rfl, ?_, rfl, ?_, ?_, ?_⟩
  · decide +kernel
  · decide +kernel
  · decide +kernel
  · exact (accounts_without_inert _ _ _ _ (.inr (by decide +kernel))).1

end Progression
