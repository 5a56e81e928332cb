import Progression.Proofs.Executions

/-! The slots of a tree: the types of its expressions, the variables of the names it introduces and
the targets of its references. A tree is checked in place by writing into its slots. A write to a
slot that is already filled fails; none of those that checking makes does, neither in a tree that
passes nor in one that is rejected halfway. -/

namespace Progression

/-- Fills a slot, which has to be empty. -/
def Slot.set {α : Type} (slot : Option α) (a : α) : Option (Option α) :=
  match slot with
  | none => some (some a)
  | some _ => none

/-- A write to a slot of a tree: the type of its outermost node, the target of a reference, the
variable of one of the names that its outermost node introduces, or a slot further inside. -/
inductive Fill where
  | type (type : Ty)
  | target (id : Nat)
  | binding (index id : Nat)
  | part (index : Nat) (fill : Fill)

def Binding.fill (binding : Binding) (id : Nat) : Option Binding :=
  (Slot.set binding.id id).map fun slot => { binding with id := slot }

def Mark.fill (mark : Mark) (type : Ty) : Option Mark :=
  (Slot.set mark.type type).map fun slot => { mark with type := slot }

namespace Expr

/-- The expression with another mark on its outermost node. -/
def withMark (mark : Mark) : Expr → Expr
  | int _ value => int mark value
  | float _ value => float mark value
  | ref _ name target => ref mark name target
  | binary _ op left right => binary mark op left right
  | paren _ inner => paren mark inner
  | range _ lower upper => range mark lower upper
  | map _ argument param body => map mark argument param body
  | reduce _ sequence base accumulator element body =>
      reduce mark sequence base accumulator element body

/-- Makes a write, which fails if there is no such slot or it is filled. -/
def fill : Expr → Fill → Option Expr
  | e, .type type => (e.mark.fill type).map fun mark => e.withMark mark
  | ref mark name target, .target id => (Slot.set target id).map fun slot => ref mark name slot
  | binary mark op left right, .part 0 f =>
      (left.fill f).map fun left => binary mark op left right
  | binary mark op left right, .part 1 f =>
      (right.fill f).map fun right => binary mark op left right
  | paren mark inner, .part 0 f => (inner.fill f).map fun inner => paren mark inner
  | range mark lower upper, .part 0 f => (lower.fill f).map fun lower => range mark lower upper
  | range mark lower upper, .part 1 f => (upper.fill f).map fun upper => range mark lower upper
  | map mark argument param body, .binding 0 id =>
      (param.fill id).map fun param => map mark argument param body
  | map mark argument param body, .part 0 f =>
      (argument.fill f).map fun argument => map mark argument param body
  | map mark argument param body, .part 1 f =>
      (body.fill f).map fun body => map mark argument param body
  | reduce mark sequence base accumulator element body, .binding 0 id =>
      (accumulator.fill id).map fun accumulator =>
        reduce mark sequence base accumulator element body
  | reduce mark sequence base accumulator element body, .binding 1 id =>
      (element.fill id).map fun element => reduce mark sequence base accumulator element body
  | reduce mark sequence base accumulator element body, .part 0 f =>
      (sequence.fill f).map fun sequence => reduce mark sequence base accumulator element body
  | reduce mark sequence base accumulator element body, .part 1 f =>
      (base.fill f).map fun base => reduce mark sequence base accumulator element body
  | reduce mark sequence base accumulator element body, .part 2 f =>
      (body.fill f).map fun body => reduce mark sequence base accumulator element body
  | _, _ => none

/-- All slots are empty. -/
def Blank : Expr → Prop
  | int mark _ => mark.type = none
  | float mark _ => mark.type = none
  | ref mark _ target => mark.type = none ∧ target = none
  | binary mark _ left right => mark.type = none ∧ left.Blank ∧ right.Blank
  | paren mark inner => mark.type = none ∧ inner.Blank
  | range mark lower upper => mark.type = none ∧ lower.Blank ∧ upper.Blank
  | map mark argument param body =>
      mark.type = none ∧ argument.Blank ∧ param.id = none ∧ body.Blank
  | reduce mark sequence base accumulator element body =>
      mark.type = none ∧ sequence.Blank ∧ base.Blank ∧ accumulator.id = none ∧
        element.id = none ∧ body.Blank

end Expr

namespace Statement

/-- Makes a write, which fails if there is no such slot or it is filled. -/
def fill : Statement → Fill → Option Statement
  | assign span target value, .binding 0 id =>
      (target.fill id).map fun target => assign span target value
  | assign span target value, .part 0 f =>
      (value.fill f).map fun value => assign span target value
  | out span value, .part 0 f => (value.fill f).map fun value => out span value
  | _, _ => none

/-- All slots are empty. -/
def Blank : Statement → Prop
  | assign _ target value => target.id = none ∧ value.Blank
  | out _ value => value.Blank
  | print _ _ => True

end Statement

/-- A verdict, and the writes that were made on the way to it. -/
structure Recorded (α : Type) extends Verdict α where
  fills : List Fill

/-- A check that writes what it finds out into the slots of a tree, given the variables that are
declared before it. -/
def InPlace (α : Type) : Type := Array Variable → Recorded α

namespace InPlace

variable {α β : Type}

/-- A check without writes. -/
def lift (check : Check α) : InPlace α := fun declared =>
  { check declared with fills := [] }

/-- Goes on with the result of another check; the writes of what is rejected stay. -/
def andThen (check : InPlace α) (next : α → InPlace β) : InPlace β := fun declared =>
  let first := check declared
  match first.result with
  | none => ⟨⟨none, first.reports, first.declared⟩, first.fills⟩
  | some a =>
      let last := next a first.declared
      ⟨⟨last.result, first.reports ++ last.reports, last.declared⟩, first.fills ++ last.fills⟩

instance : Monad InPlace where
  pure a := lift (pure a)
  bind := andThen

/-- Goes through both checks, even if the first rejects. -/
def both (first : InPlace α) (second : InPlace β) : InPlace (α × β) := fun declared =>
  let left := first declared
  let right := second left.declared
  ⟨⟨left.result.bind fun a => right.result.map fun b => (a, b), left.reports ++ right.reports,
    right.declared⟩, left.fills ++ right.fills⟩

/-- Writes to a slot. -/
def write (fill : Fill) : InPlace Unit := fun declared => ⟨⟨some (), [], declared⟩, [fill]⟩

/-- The same check of the part of a larger tree. -/
def within (index : Nat) (check : InPlace α) : InPlace α := fun declared =>
  let recorded := check declared
  { recorded with fills := recorded.fills.map (.part index) }

/-- Declares a variable for one of the names that a node introduces. -/
def declare (index : Nat) (binding : Binding) (type : Ty) : InPlace Nat := do
  let id ← lift (Check.declare binding type)
  write (.binding index id)
  pure id

/-- Accepts an expression with its type. -/
def finish (type : Ty) : InPlace Ty := do
  write (.type type)
  pure type

end InPlace

open InPlace in
/-- Checks an expression in place and gives its type. -/
def Expr.checkInPlace (scope : Scope) : Expr → InPlace Ty
  | int _ _ => finish .number
  | float _ _ => finish .number
  | ref mark name _ => do
      let v ← lift (Check.resolve scope name mark.span)
      write (.target v.id)
      finish v.type
  | binary mark op left right => do
      let leftType ← within 0 (left.checkInPlace scope)
      let rightType ← within 1 (right.checkInPlace scope)
      if leftType = .number ∧ rightType = .number then finish .number
      else lift (Check.reject (.operands op leftType rightType) mark.span)
  | paren _ inner => do
      let type ← within 0 (inner.checkInPlace scope)
      finish type
  | range _ lower upper => do
      let lowerType ← within 0 (lower.checkInPlace scope)
      let upperType ← within 1 (upper.checkInPlace scope)
      if lowerType ≠ .number then lift (Check.reject (.bound .lower lowerType) lower.span)
      else if upperType ≠ .number then lift (Check.reject (.bound .upper upperType) upper.span)
      else finish (.sequence .number)
  | map _ argument param body => do
      let argumentType ← within 0 (argument.checkInPlace scope)
      match argumentType with
      | .number => lift (Check.reject (.mapArgument argumentType) argument.span)
      | .sequence element =>
          let id ← declare 0 param element
          let bodyType ← within 1 (body.checkInPlace (scope.enter.declare param.name id))
          finish (.sequence bodyType)
  | reduce _ sequence base accumulator element body => do
      let (baseType, sequenceType) ←
        both (within 1 (base.checkInPlace scope)) (within 0 (sequence.checkInPlace scope))
      match sequenceType with
      | .number => lift (Check.reject (.reduceArgument sequenceType) sequence.span)
      | .sequence elementType =>
          let accumulatorId ← declare 0 accumulator baseType
          let inner := scope.enter.declare accumulator.name accumulatorId
          if inner.declares element.name then
            lift (Check.reject (.alreadyDeclared element.name) element.span)
          else
            let elementId ← declare 1 element elementType
            let bodyType ← within 2 (body.checkInPlace (inner.declare element.name elementId))
            if bodyType = baseType then finish baseType
            else lift (Check.reject (.reduceBody baseType bodyType) body.span)

open InPlace in
/-- Checks a statement in place and gives the global scope after it. -/
def Checker.checkInPlace (globals : Scope) : Statement → InPlace Scope
  | .assign _ target value => do
      let type ← within 0 (value.checkInPlace globals)
      if globals.declares target.name then
        lift (Check.reject (.alreadyDeclared target.name) target.span)
      else
        let id ← declare 0 target type
        pure (globals.declare target.name id)
  | .out _ value => do
      let _ ← within 0 (value.checkInPlace globals)
      pure globals
  | .print _ _ => pure globals

/-- The verdict in place is the same, with related results. All writes succeed, also those before a
rejection. -/
structure Recorded.Confirms {τ α β : Type} (fill : τ → Fill → Option τ) (tree : τ)
    (related : α → β → τ → Prop) (verdict : Verdict α) (recorded : Recorded β) : Prop where
  reports : recorded.reports = verdict.reports
  declared : recorded.declared = verdict.declared
  filled : ∃ final, recorded.fills.foldlM fill tree = some final ∧
    Option.Rel (fun a b => related a b final) verdict.result recorded.result

/-- The check in place of a tree follows the check that builds a new one. -/
def Follows {τ α β : Type} (fill : τ → Fill → Option τ) (tree : τ) (check : Check α)
    (inPlace : InPlace β) (related : α → β → τ → Prop) : Prop :=
  ∀ declared, Recorded.Confirms fill tree related (check declared) (inPlace declared)

namespace Follows

variable {τ α β γ δ : Type} {fill : τ → Fill → Option τ} {tree : τ} {related : α → β → τ → Prop}
  {further : γ → δ → τ → Prop}

theorem lift (check : Check α) : Follows fill tree check (InPlace.lift check)
    fun a b final => b = a ∧ final = tree := by
  intro declared
  refine ⟨rfl, rfl, tree, rfl, ?_⟩
  show Option.Rel _ (check declared).result (check declared).result
  cases (check declared).result with
  | none => exact .none
  | some a => exact .some ⟨rfl, rfl⟩

theorem pure {a : α} {b : β} (h : related a b tree) :
    Follows fill tree (Pure.pure a) (Pure.pure b) related :=
  fun _ => ⟨rfl, rfl, tree, rfl, .some h⟩

theorem reject (cause : TypeError) {span other : Span} (hSpan : span = other) :
    Follows fill tree (Check.reject cause span) (InPlace.lift (Check.reject cause other))
      related := by
  intro declared
  rw [hSpan]
  exact ⟨rfl, rfl, tree, rfl, .none⟩

theorem bind {check : Check α} {inPlace : InPlace β} {next : α → Check γ} {after : β → InPlace δ}
    (hFirst : Follows fill tree check inPlace related)
    (hNext : ∀ a b final, related a b final → Follows fill final (next a) (after b) further) :
    Follows fill tree (check >>= next) (inPlace >>= after) further := by
  intro declared
  obtain ⟨hReports, hDeclared, final, hFinal, hResult⟩ := hFirst declared
  simp only [Bind.bind, Check.andThen, InPlace.andThen]
  generalize (check declared).result = one at hResult
  generalize (inPlace declared).result = two at hResult
  cases hResult with
  | none => exact ⟨hReports, hDeclared, final, hFinal, .none⟩
  | some h =>
      obtain ⟨hMore, hLast, last, hFills, hRest⟩ := hNext _ _ final h (check declared).declared
      simp only [hDeclared, hReports]
      refine ⟨congrArg _ hMore, hLast, last, ?_, hRest⟩
      show (_ ++ _ : List Fill).foldlM fill tree = some last
      rw [List.foldlM_append, hFinal]
      exact hFills

theorem write {check : Check α} {after : Unit → InPlace β} {f : Fill} {next : τ}
    (hFill : fill tree f = some next) (hNext : Follows fill next check (after ()) related) :
    Follows fill tree check (InPlace.write f >>= after) related := by
  intro declared
  obtain ⟨hReports, hDeclared, final, hFinal, hResult⟩ := hNext declared
  refine ⟨hReports, hDeclared, final, ?_, hResult⟩
  show (f :: (after () declared).fills).foldlM fill tree = some final
  rw [List.foldlM_cons, hFill]
  exact hFinal

/-- The writes to a part of a tree are writes to the tree. -/
theorem foldlM_part {σ : Type} {inner : σ → Fill → Option σ} {plug : σ → τ} {index : Nat}
    (hPlug : ∀ x f, fill (plug x) (.part index f) = (inner x f).map plug) (fills : List Fill)
    (x : σ) :
    (fills.map (.part index)).foldlM fill (plug x) = (fills.foldlM inner x).map plug := by
  induction fills generalizing x with
  | nil => rfl
  | cons f fills ih =>
      rw [List.map_cons, List.foldlM_cons, List.foldlM_cons, hPlug]
      cases inner x f with
      | none => rfl
      | some y => exact ih y

theorem within {σ : Type} {inner : σ → Fill → Option σ} {x : σ} {same : α → β → σ → Prop}
    {check : Check α} {inPlace : InPlace β} (plug : σ → τ) {index : Nat}
    (h : Follows inner x check inPlace same)
    (hPlug : ∀ x f, fill (plug x) (.part index f) = (inner x f).map plug) :
    Follows fill (plug x) check (InPlace.within index inPlace)
      fun a b final => ∃ y, same a b y ∧ final = plug y := by
  intro declared
  obtain ⟨hReports, hDeclared, y, hFinal, hResult⟩ := h declared
  refine ⟨hReports, hDeclared, plug y, ?_, ?_⟩
  · show ((inPlace declared).fills.map (.part index)).foldlM fill (plug x) = some (plug y)
    rw [foldlM_part hPlug, hFinal]
    rfl
  · show Option.Rel _ (check declared).result (inPlace declared).result
    generalize (check declared).result = one at hResult
    generalize (inPlace declared).result = two at hResult
    cases hResult with
    | none => exact .none
    | some hSame => exact .some ⟨y, hSame, rfl⟩

/-- Two parts of a tree are checked one after the other, the second even if the first is
rejected. -/
theorem both {σ : Type} {inner : σ → Fill → Option σ} {x y : σ} {same : α → β → σ → Prop}
    {alike : γ → δ → σ → Prop} {first : Check α} {second : Check γ} {left : InPlace β}
    {right : InPlace δ} (plug : σ → σ → τ) {i j : Nat} (hFirst : Follows inner x first left same)
    (hSecond : Follows inner y second right alike)
    (hLeft : ∀ x y f, fill (plug x y) (.part i f) = (inner x f).map fun x => plug x y)
    (hRight : ∀ x y f, fill (plug x y) (.part j f) = (inner y f).map fun y => plug x y) :
    Follows fill (plug x y) (Check.both first second)
      (InPlace.both (InPlace.within i left) (InPlace.within j right))
      fun a b final => ∃ x y, same a.1 b.1 x ∧ alike a.2 b.2 y ∧ final = plug x y := by
  intro declared
  obtain ⟨hReports, hDeclared, x', hFinal, hResult⟩ := hFirst declared
  obtain ⟨hMore, hLast, y', hEnd, hRest⟩ := hSecond (first declared).declared
  rw [← hDeclared] at hMore hLast hEnd hRest
  refine ⟨?_, ?_, plug x' y', ?_, ?_⟩
  · show (left declared).reports ++ (right (left declared).declared).reports = _
    rw [hReports, hMore, hDeclared]
    rfl
  · show (right (left declared).declared).declared = _
    rw [hLast, hDeclared]
    rfl
  · show ((left declared).fills.map (Fill.part i) ++
      (right (left declared).declared).fills.map (Fill.part j)).foldlM fill (plug x y) = _
    have hOne := foldlM_part (fun x f => hLeft x y f) (left declared).fills x
    have hTwo := foldlM_part (fun y f => hRight x' y f) (right (left declared).declared).fills y
    rw [hFinal] at hOne
    rw [hEnd] at hTwo
    rw [List.foldlM_append, hOne]
    exact hTwo
  · show Option.Rel _ ((first declared).result.bind fun a =>
        (second (first declared).declared).result.map fun b => (a, b))
      ((left declared).result.bind fun a =>
        (right (left declared).declared).result.map fun b => (a, b))
    rw [← hDeclared]
    generalize (first declared).result = one at hResult
    generalize (left declared).result = two at hResult
    cases hResult with
    | none => exact .none
    | some hSame =>
        generalize (second (left declared).declared).result = three at hRest
        generalize (right (left declared).declared).result = four at hRest
        cases hRest with
        | none => exact .none
        | some hAlike => exact .some ⟨x', y', hSame, hAlike, rfl⟩

theorem declare {binding : Binding} {type : Ty} {index : Nat} {next : Nat → Check α}
    {after : Nat → InPlace β} {filled : Nat → τ}
    (hFill : ∀ id, fill tree (.binding index id) = some (filled id))
    (hNext : ∀ id, Follows fill (filled id) (next id) (after id) related) :
    Follows fill tree (Check.declare binding type >>= next)
      (InPlace.declare index binding type >>= after) related := by
  have hDeclare : Follows fill tree (Check.declare binding type)
      (InPlace.declare index binding type) fun a b final => b = a ∧ final = filled a := by
    intro declared
    refine ⟨rfl, rfl, filled declared.size, ?_, .some ⟨rfl, rfl⟩⟩
    show [Fill.binding index declared.size].foldlM fill tree = _
    rw [List.foldlM_cons, hFill]
    rfl
  refine hDeclare.bind ?_
  rintro a _ _ ⟨rfl, rfl⟩
  exact hNext _

end Follows

theorem Binding.fill_of_blank {binding : Binding} (h : binding.id = none) (id : Nat) :
    binding.fill id = some (binding.resolved id) := by
  rw [Binding.fill, h]
  rfl

namespace Expr

/-- The result in place is the type, and what the writes come to is the checked expression. -/
def Settles (e : Expr) (pair : Ty × Expr) (type : Ty) (final : Expr) : Prop :=
  pair = (type, final) ∧ final.span = e.span

theorem fill_type {e : Expr} (h : e.mark.type = none) (type : Ty) :
    e.fill (.type type) = some (e.withMark (e.mark.typed type)) := by
  have hFill : e.fill (.type type) = (e.mark.fill type).map fun mark => e.withMark mark := by
    cases e <;> rfl
  rw [hFill, Mark.fill, h]
  rfl

theorem span_withMark (e : Expr) (mark : Mark) : (e.withMark mark).span = mark.span := by
  cases e <;> rfl

theorem follows_finish {e source checked : Expr} {type : Ty} (h : e.mark.type = none)
    (hSpan : e.span = source.span) (hChecked : e.withMark (e.mark.typed type) = checked) :
    Follows fill e (pure (type, checked)) (InPlace.finish type) source.Settles := by
  refine .write (fill_type h type) (.pure ⟨by rw [hChecked], ?_⟩)
  rw [span_withMark, ← hSpan]
  rfl

/-- Checking in place writes what checking builds. -/
theorem check_follows (e : Expr) (hBlank : e.Blank) (scope : Scope) :
    Follows fill e (e.check scope) (e.checkInPlace scope) e.Settles := by
  induction e generalizing scope with
  | int mark value => exact follows_finish hBlank rfl rfl
  | float mark value => exact follows_finish hBlank rfl rfl
  | ref mark name target =>
      obtain ⟨hType, rfl⟩ := hBlank
      refine (Follows.lift _).bind ?_
      rintro _ v _ ⟨rfl, rfl⟩
      have hFill : (ref mark name none).fill (.target v.id) = some (ref mark name (some v.id)) :=
        rfl
      refine .write hFill ?_
      exact follows_finish hType rfl rfl
  | binary mark op left right ihLeft ihRight =>
      obtain ⟨hType, hLeft, hRight⟩ := hBlank
      refine ((ihLeft hLeft scope).within (fun x => binary mark op x right) fun _ _ => rfl).bind ?_
      -- The writes have made `left'` of the left operand. The check goes on with the node in which
      -- it stands, and so for the parts of all other nodes.
      rintro _ leftType _ ⟨left', ⟨rfl, -⟩, rfl⟩
      refine ((ihRight hRight scope).within (binary mark op left') fun _ _ => rfl).bind ?_
      rintro _ rightType _ ⟨right', ⟨rfl, -⟩, rfl⟩
      dsimp only
      split
      · exact follows_finish hType rfl rfl
      · exact .reject _ rfl
  | paren mark inner ih =>
      obtain ⟨hType, hInner⟩ := hBlank
      refine ((ih hInner scope).within (fun x => paren mark x) fun _ _ => rfl).bind ?_
      rintro _ type _ ⟨inner', ⟨rfl, -⟩, rfl⟩
      exact follows_finish hType rfl rfl
  | range mark lower upper ihLower ihUpper =>
      obtain ⟨hType, hLower, hUpper⟩ := hBlank
      refine ((ihLower hLower scope).within (fun x => range mark x upper) fun _ _ => rfl).bind ?_
      rintro _ lowerType _ ⟨lower', ⟨rfl, hLowerSpan⟩, rfl⟩
      refine ((ihUpper hUpper scope).within (fun x => range mark lower' x) fun _ _ => rfl).bind ?_
      rintro _ upperType _ ⟨upper', ⟨rfl, hUpperSpan⟩, rfl⟩
      dsimp only
      split
      · exact .reject _ hLowerSpan
      · split
        · exact .reject _ hUpperSpan
        · exact follows_finish hType rfl rfl
  | map mark argument param body ihArgument ihBody =>
      obtain ⟨hType, hArgument, hParam, hBody⟩ := hBlank
      refine ((ihArgument hArgument scope).within (fun x => map mark x param body)
        fun _ _ => rfl).bind ?_
      rintro _ argumentType _ ⟨argument', ⟨rfl, hSpan⟩, rfl⟩
      cases argumentType with
      | number => exact .reject _ hSpan
      | sequence element =>
          have hFill (id : Nat) : (map mark argument' param body).fill (.binding 0 id) =
              some (map mark argument' (param.resolved id) body) := by
            rw [fill, Binding.fill_of_blank hParam]
            rfl
          refine .declare hFill fun id => ?_
          refine ((ihBody hBody _).within (fun x => map mark argument' (param.resolved id) x)
            fun _ _ => rfl).bind ?_
          rintro _ bodyType _ ⟨body', ⟨rfl, -⟩, rfl⟩
          exact follows_finish hType rfl rfl
  | reduce mark sequence base accumulator element body ihSequence ihBase ihBody =>
      obtain ⟨hType, hSequence, hBase, hAccumulator, hElement, hBody⟩ := hBlank
      refine (Follows.both (fun x y => reduce mark y x accumulator element body)
        (ihBase hBase scope) (ihSequence hSequence scope) (fun _ _ _ => rfl)
        fun _ _ _ => rfl).bind ?_
      rintro ⟨_, _⟩ ⟨baseType, sequenceType⟩ _ ⟨base', sequence', ⟨hPair, -⟩, ⟨hOther, hSpan⟩, rfl⟩
      dsimp only at hPair hOther
      subst hPair hOther
      cases sequenceType with
      | number => exact .reject _ hSpan
      | sequence elementType =>
          have hFill (id : Nat) :
              (reduce mark sequence' base' accumulator element body).fill (.binding 0 id) =
                some (reduce mark sequence' base' (accumulator.resolved id) element body) := by
            rw [fill, Binding.fill_of_blank hAccumulator]
            rfl
          refine .declare hFill fun accumulatorId => ?_
          dsimp only
          split
          · exact .reject _ rfl
          · have hNext (id : Nat) :
                (reduce mark sequence' base' (accumulator.resolved accumulatorId) element
                  body).fill (.binding 1 id) =
                  some (reduce mark sequence' base' (accumulator.resolved accumulatorId)
                    (element.resolved id) body) := by
              rw [fill, Binding.fill_of_blank hElement]
              rfl
            refine .declare hNext fun elementId => ?_
            refine ((ihBody hBody _).within (fun x => reduce mark sequence' base'
              (accumulator.resolved accumulatorId) (element.resolved elementId) x)
              fun _ _ => rfl).bind ?_
            rintro _ bodyType _ ⟨body', ⟨rfl, hBodySpan⟩, rfl⟩
            dsimp only
            split
            · exact follows_finish hType rfl rfl
            · exact .reject _ hBodySpan

end Expr

/-- Checking the statement in place comes to the same as checking it. It fills no slot twice, and
the writes to a statement that passes make it the checked one. -/
def Checker.FillsOnce (checker : Checker) (s : Statement) : Prop :=
  Recorded.Confirms Statement.fill s (fun pair globals final => pair = (final, globals))
    (checkStatement checker.globals s checker.declared)
    (checkInPlace checker.globals s checker.declared)

/-- Checking a statement in place writes what checking it builds. -/
theorem Checker.checkStatement_follows (s : Statement) (hBlank : s.Blank) (globals : Scope) :
    Follows Statement.fill s (checkStatement globals s) (checkInPlace globals s)
      fun pair globals final => pair = (final, globals) := by
  cases s with
  | assign span target value =>
      obtain ⟨hTarget, hValue⟩ := hBlank
      refine ((value.check_follows hValue globals).within (fun x => Statement.assign span target x)
        fun _ _ => rfl).bind ?_
      rintro _ type _ ⟨value', ⟨rfl, -⟩, rfl⟩
      dsimp only
      split
      · exact .reject _ rfl
      · have hFill (id : Nat) : (Statement.assign span target value').fill (.binding 0 id) =
            some (.assign span (target.resolved id) value') := by
          rw [Statement.fill, Binding.fill_of_blank hTarget]
          rfl
        exact .declare hFill fun id => .pure rfl
  | out span value =>
      refine ((value.check_follows hBlank globals).within (fun x => Statement.out span x)
        fun _ _ => rfl).bind ?_
      rintro _ type _ ⟨value', ⟨rfl, -⟩, rfl⟩
      exact .pure rfl
  | print span text => exact .pure rfl

end Progression
