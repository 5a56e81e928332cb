import Mathlib.Algebra.Group.TypeTags.Basic
import Mathlib.Algebra.Ring.Int.Defs
import Mathlib.Data.List.Infix
import Progression.Proofs.Names
import Progression.Proofs.Resolution
import Progression.Proofs.Strictness

/-! Folds over slices. The slices of a `reduce` are folded without the base and their results are
folded onto it, so the elements are grouped as the number of workers has it. If the body multiplies
what it is given, in the sense of an associative operation, then the grouping cannot be seen: the
`reduce` is the fold of the base over the elements from left to right. -/

namespace Progression

universe u

/-- The value of an outcome and what was reported on the way to it. -/
def Outcome.answer (outcome : Outcome Value) : Answer := ⟨outcome.value, outcome.reports⟩

theorem Outcome.Matches.answer_eq {types : Types} {bindings : Bindings} {outcome : Outcome Value}
    {answer : Answer} (h : outcome.Matches types bindings answer) : outcome.answer = answer := by
  rw [Outcome.answer, h.value, h.reports]

/-- Parts of the images of a list are the images of parts of the list. -/
theorem exists_blocks {ι : Type u} {f : ι → Value} {parts : List (List Value)} {items : List ι}
    (h : parts.flatten = items.map f) :
    ∃ blocks : List (List ι), blocks.flatten = items ∧ blocks.map (List.map f) = parts := by
  induction parts generalizing items with
  | nil =>
      have hNil : items = [] := List.map_eq_nil_iff.mp h.symm
      exact ⟨[], hNil.symm, rfl⟩
  | cons part parts ih =>
      rw [List.flatten_cons] at h
      obtain ⟨block, rest, rfl, hBlock, hRest⟩ := List.map_eq_append_iff.mp h.symm
      obtain ⟨blocks, rfl, rfl⟩ := ih hRest.symm
      exact ⟨block :: blocks, rfl, by rw [List.map_cons, hBlock]⟩

/-- A fold over slices of the images of a list is about nonempty blocks of the list, one for each
slice. -/
theorem Named.exists_reduce {ι : Type u} (f : ι → Value) (items : List ι) {workers : Nat}
    (hWorkers : 0 < workers) :
    ∃ blocks : List (List ι), blocks.flatten = items ∧ (∀ block ∈ blocks, block ≠ []) ∧
      blocks.length = (slices items.length workers).length ∧
      ∀ (answer : Value → Value → Answer) (start : Value),
        Named.reduce workers answer start (items.map f) =
          (Sequential.foldLeft answer start
            (blocks.map fun block => (foldSlice answer (block.map f)).value)).after
              (blocks.flatMap fun block => (foldSlice answer (block.map f)).reports) := by
  have hSplit := flatMap_split (items.map f) hWorkers
  rw [List.flatMap_def] at hSplit
  obtain ⟨blocks, hFlatten, hParts⟩ := exists_blocks hSplit
  refine ⟨blocks, hFlatten, ?_, ?_, ?_⟩
  · rintro block hMem rfl
    have hPart : [] ∈ (split (items.map f) workers).map Prod.snd := by
      rw [← hParts]
      exact List.mem_map.mpr ⟨[], hMem, rfl⟩
    obtain ⟨part, hMem, hNil⟩ := List.mem_map.mp hPart
    exact ne_nil_of_mem_split hWorkers hMem hNil
  · have hLength := congrArg List.length hParts
    simpa [split] using hLength
  · intro answer start
    have hAnswers : (split (items.map f) workers).map (fun part => foldSlice answer part.2) =
        blocks.map fun block => foldSlice answer (block.map f) := by
      rw [← Function.comp_def, ← List.map_map, ← hParts, List.map_map]
      rfl
    simp only [Named.reduce, hAnswers, List.map_map, List.flatMap_map, Function.comp_def]

/-- Whatever two nonempty blocks stand side by side in the list, the answer for their images is the
image of both together, and nothing is reported. Images of blocks are ordinary values. -/
structure Joins {ι : Type u} (answer : Value → Value → Answer) (image : List ι → Value)
    (items : List ι) : Prop where
  ordinary : ∀ block, block ≠ [] → image block ≠ .error
  joined : ∀ left right, left ≠ [] → right ≠ [] → left ++ right <:+: items →
    answer (image left) (image right) = ⟨image (left ++ right), []⟩

namespace Joins

variable {ι : Type u} {answer : Value → Value → Answer} {image : List ι → Value} {items : List ι}
  (h : Joins answer image items)

include h

/-- Folding the images of blocks onto the image of the block before them. -/
theorem foldLeft (blocks : List (List ι)) (hBlocks : ∀ block ∈ blocks, block ≠ [])
    {start : List ι} (hStart : start ≠ []) (hInfix : start ++ blocks.flatten <:+: items) :
    Sequential.foldLeft answer (image start) (blocks.map image) =
      ⟨image (start ++ blocks.flatten), []⟩ := by
  -- The accumulator stays the image of a block: of all that has been folded so far.
  induction blocks generalizing start with
  | nil => simp [Sequential.foldLeft]
  | cons block blocks ih =>
      obtain ⟨hBlock, hRest⟩ := List.forall_mem_cons.mp hBlocks
      rw [List.flatten_cons, ← List.append_assoc] at hInfix
      have hPair : start ++ block <:+: items := (List.prefix_append _ _).isInfix.trans hInfix
      have hOrdinary : ¬((image start).isError || (image block).isError) = true := by
        rw [Bool.or_eq_true, Value.isError_iff, Value.isError_iff]
        exact not_or.mpr ⟨h.ordinary _ hStart, h.ordinary _ hBlock⟩
      have hNext := ih hRest (List.append_ne_nil_of_left_ne_nil hStart block) hInfix
      rw [List.map_cons, Sequential.foldLeft, if_neg hOrdinary, h.joined _ _ hStart hBlock hPair]
      simp only [hNext, Answer.after, List.nil_append, List.flatten_cons, List.append_assoc]

/-- A slice is folded to the image of its block. -/
theorem foldSlice {block : List ι} (hBlock : block ≠ []) (hInfix : block <:+: items) :
    Named.foldSlice answer (block.map fun item => image [item]) = ⟨image block, []⟩ := by
  cases block with
  | nil => exact absurd rfl hBlock
  | cons first rest =>
      have hSingles : (rest.map fun item => [item]).flatten = rest := by
        rw [← List.flatMap_def, List.flatMap_singleton']
      have hFold := h.foldLeft (rest.map fun item => [item]) (by simp)
        (List.cons_ne_nil first []) (by rwa [hSingles])
      rw [hSingles, List.map_map] at hFold
      exact hFold

omit h in
/-- However the elements are cut into slices, folding the slices and then their results gives the
image of the whole list. -/
theorem reduce {first : ι} {rest : List ι} (h : Joins answer image (first :: rest)) {workers : Nat}
    (hWorkers : 0 < workers) :
    Named.reduce workers answer (image [first]) (rest.map fun item => image [item]) =
      ⟨image (first :: rest), []⟩ := by
  obtain ⟨blocks, hFlatten, hBlocks, -, hReduce⟩ :=
    Named.exists_reduce (fun item => image [item]) rest hWorkers
  have hSlice : ∀ block ∈ blocks,
      Named.foldSlice answer (block.map fun item => image [item]) = ⟨image block, []⟩ := by
    intro block hMem
    apply h.foldSlice (hBlocks block hMem)
    rw [← hFlatten]
    exact List.infix_cons (List.infix_of_mem_flatten hMem)
  have hValues : (blocks.map fun block =>
      (Named.foldSlice answer (block.map fun item => image [item])).value) = blocks.map image :=
    List.map_congr_left fun block hMem => by rw [hSlice block hMem]
  have hReports : (blocks.flatMap fun block =>
      (Named.foldSlice answer (block.map fun item => image [item])).reports) = [] :=
    List.flatMap_eq_nil_iff.mpr fun block hMem => by rw [hSlice block hMem]
  have hFold := h.foldLeft blocks hBlocks (List.cons_ne_nil first [])
    (by rw [hFlatten]; exact List.infix_rfl)
  rw [hReduce, hValues, hReports, hFold, hFlatten]
  rfl

end Joins

/-- The expression has been filled in by the checker: it passed where the names in scope lead to
declared variables, each at its own number. -/
def Expr.FilledIn (node : Expr) : Prop :=
  ∃ (types : Types) (scope : Scope) (declared final : Array Variable) (source : Expr) (type : Ty),
    Agrees types scope declared ∧ source.Passed scope declared type node final

theorem Expr.Passed.filledIn_self {e checked : Expr} {type : Ty} {types : Types} {scope : Scope}
    {declared final : Array Variable} (h : e.Passed scope declared type checked final)
    (hAgrees : Agrees types scope declared) : checked.FilledIn :=
  ⟨types, scope, declared, final, e, type, hAgrees, h⟩

/-- With an expression all expressions inside it have been filled in. -/
theorem Expr.Passed.filledIn {e checked : Expr} {type : Ty} {types : Types} {scope : Scope}
    {declared final : Array Variable} (h : e.Passed scope declared type checked final)
    (hAgrees : Agrees types scope declared) : ∀ node ∈ checked.nodes, node.FilledIn := by
  have hSelf := h.filledIn_self hAgrees
  induction h generalizing types with
  | int | float | ref => exact List.forall_mem_singleton.mpr hSelf
  | binary hFirst hSecond ihFirst ihSecond | range hFirst hSecond ihFirst ihSecond =>
      obtain ⟨more, rfl⟩ := hFirst.grows
      have hMiddle := hAgrees.grow more
      exact List.forall_mem_cons.mpr ⟨hSelf, List.forall_mem_append.mpr
        ⟨ihFirst hAgrees (hFirst.filledIn_self hAgrees),
          ihSecond hMiddle (hSecond.filledIn_self hMiddle)⟩⟩
  | paren hInner ih =>
      exact List.forall_mem_cons.mpr ⟨hSelf, ih hAgrees (hInner.filledIn_self hAgrees)⟩
  | @map _ _ _ _ _ _ _ _ _ param element _ hArgument hBody ihArgument ihBody =>
      obtain ⟨more, rfl⟩ := hArgument.grows
      have hInner := (hAgrees.grow more).enter.declare param.name element
      exact List.forall_mem_cons.mpr ⟨hSelf, List.forall_mem_append.mpr
        ⟨ihArgument hAgrees (hArgument.filledIn_self hAgrees),
          ihBody hInner (hBody.filledIn_self hInner)⟩⟩
  | @reduce _ _ _ _ _ _ _ _ _ _ _ _ accumulator element elementType type hBase hSequence _ hBody
      ihBase ihSequence ihBody =>
      obtain ⟨more, rfl⟩ := hBase.grows
      have hMiddle := hAgrees.grow more
      obtain ⟨rest, rfl⟩ := hSequence.grows
      have hInner := ((hMiddle.grow rest).enter.declare accumulator.name type).declare element.name
        elementType
      rw [Array.size_push] at hInner
      have hLambda := ihBody hInner (hBody.filledIn_self hInner)
      exact List.forall_mem_cons.mpr ⟨hSelf, List.forall_mem_append.mpr
        ⟨ihSequence hMiddle (hSequence.filledIn_self hMiddle), List.forall_mem_append.mpr
          ⟨ihBase hAgrees (hBase.filledIn_self hAgrees), hLambda⟩⟩⟩

/-- What the checker hands on has passed it, in a state in which its names lead to declared
variables. -/
theorem Checker.exists_passed {events : List Event} {s : Statement}
    (h : s ∈ statements (Checker.first.run events).1) :
    ∃ checker next : Checker, checker.Ordered ∧ checker.Passed s next := by
  have hStep (history : List Event) (checker : Checker) (event : Event)
      (hBefore : checker.Ordered ∧ ∀ t ∈ statements history,
        ∃ checker next : Checker, checker.Ordered ∧ checker.Passed t next) :
      (checker.step event).2.Ordered ∧ ∀ t ∈ statements (history ++ (checker.step event).1),
        ∃ checker next : Checker, checker.Ordered ∧ checker.Passed t next := by
    obtain ⟨hOrdered, hHistory⟩ := hBefore
    have hHands := checker.hands_step event
    rw [statements_append]
    generalize statements (checker.step event).1 = handed at hHands ⊢
    generalize (checker.step event).2 = next at hHands ⊢
    cases hHands with
    | nothing more =>
        rw [List.append_nil]
        exact ⟨hOrdered.grow more, hHistory⟩
    | passed hPassed =>
        exact ⟨hOrdered.passed hPassed, List.forall_mem_append.mpr
          ⟨hHistory, List.forall_mem_singleton.mpr ⟨checker, next, hOrdered, hPassed⟩⟩⟩
  have hFirst : Checker.first.Ordered ∧ ∀ t ∈ statements [],
      ∃ checker next : Checker, checker.Ordered ∧ checker.Passed t next :=
    ⟨ordered_first, by simp [statements]⟩
  exact (transduce_history _ hStep events hFirst).2 s h

/-- The expression stands somewhere in a statement that a checker has handed on. -/
def Expr.Checked (e : Expr) : Prop :=
  ∃ events, ∃ s ∈ statements (Checker.first.run events).1, e ∈ s.nodes

theorem Expr.Checked.filledIn {e : Expr} (h : e.Checked) : e.FilledIn := by
  obtain ⟨events, s, hMem, hNode⟩ := h
  obtain ⟨checker, next, ⟨-, types, hAgrees⟩, hPassed⟩ := Checker.exists_passed hMem
  rw [Statement.nodes] at hNode
  obtain ⟨value, hValue, hNode⟩ := List.mem_flatMap.mp hNode
  obtain ⟨source, type, final, hAccepts⟩ := hPassed.accepts (Option.mem_toList.mp hValue)
  exact (passed_of_accepts hAccepts).filledIn hAgrees e hNode

/-- The bindings when the base and then the sequence of a `reduce` have been evaluated. -/
def Expr.foldBindings (config : Config) (sequence base : Expr) (bindings : Bindings) : Bindings :=
  (sequence.eval config (base.eval config bindings).bindings).bindings

/-- The base and the sequence of a `reduce`, evaluated in this order, give these values. -/
structure Expr.Feeds (config : Config) (sequence base : Expr) (bindings : Bindings) (start : Value)
    (elements : List Value) : Prop where
  start_eq : (base.eval config bindings).value = start
  elements_eq :
    (sequence.eval config (base.eval config bindings).bindings).value = .sequence elements

/-- What the body of a `reduce` answers with its two variables bound. -/
def Expr.applied (config : Config) (body : Expr) (bindings : Bindings) (a e : Nat) (x y : Value) :
    Answer := (body.eval config ((bindings.bind a x).bind e y)).answer

/-- A `reduce` that is fed with ordinary values is its fold over the slices. -/
theorem Expr.Feeds.eval_reduce {config : Config} {sequence base : Expr} {bindings : Bindings}
    {start : Value} {elements : List Value} (h : Feeds config sequence base bindings start elements)
    (hStart : start ≠ .error) (mark : Mark) (accumulator element : Binding) (a e : Nat)
    (body : Expr) :
    (Expr.reduce mark sequence base (accumulator.resolved a) (element.resolved e) body).eval config
        bindings =
      Eval.reduce config a e (body.eval config) start elements
        (foldBindings config sequence base bindings) := by
  have hSilentBase := reports_eq_nil (e := base) (by rwa [h.start_eq])
  have hSilentSequence := reports_eq_nil (e := sequence) (by rw [h.elements_eq]; simp)
  have hOrdinary : ¬start.isError = true := fun hError => hStart (Value.isError_iff.mp hError)
  simp only [eval, Eval.bind_apply, h.start_eq, h.elements_eq, hSilentBase, hSilentSequence,
    List.nil_append, Binding.resolved, if_neg hOrdinary]
  rfl

/-- What the lambda of a checked `reduce` is about: new variables, and a body that means the same
from all bindings that show what the names in its scope stand for. -/
theorem Expr.FilledIn.lambda {mark : Mark} {sequence base body : Expr}
    {accumulator element : Binding} {a e : Nat}
    (h : (Expr.reduce mark sequence base (accumulator.resolved a) (element.resolved e)
      body).FilledIn) :
    ∃ (types : Types) (scope : Scope) (type elementType : Ty), Types.Cover types scope ∧
      types a = none ∧ types e = none ∧ a ≠ e ∧ ∀ (config : Config) (names : Names),
        Means (Function.update (Function.update types a (some type)) e (some elementType))
          ((scope.enter.declare accumulator.name a).declare element.name e) names
          (body.eval config) (body.named config names) := by
  obtain ⟨types, scope, declared, final, source, type, hAgrees, hPassed⟩ := h
  generalize hNode : Expr.reduce mark sequence base (accumulator.resolved a) (element.resolved e)
    body = node at hPassed
  cases hPassed with
  | @reduce _ _ early middle _ _ _ _ _ _ _ _ outer inner elementType _ hBase hSequence _ hBody =>
      injection hNode with _ _ _ hAccumulator hElement hSame
      have hIds := And.intro (congrArg Binding.id hAccumulator) (congrArg Binding.id hElement)
      have hNames := And.intro (congrArg Binding.name hAccumulator) (congrArg Binding.name hElement)
      simp only [Binding.resolved, Option.some_inj] at hIds hNames
      obtain ⟨rfl, rfl⟩ := hIds
      rw [hNames.1, hNames.2, hSame]
      obtain ⟨more, rfl⟩ := hBase.grows
      obtain ⟨rest, rfl⟩ := hSequence.grows
      have hBefore := (hAgrees.grow more).grow rest
      have hInner := (hBefore.enter.declare outer.name type).declare inner.name elementType
      rw [Array.size_push] at hInner
      exact ⟨types, scope, type, elementType, hAgrees.cover, hBefore.unknown _ (Nat.le_refl _),
        hBefore.unknown _ (by omega), by omega, fun config names => hBody.means config hInner names⟩
  | _ => cases hNode

/-- A checked `reduce` folds with one and the same step, whether on a copy of the bindings or on the
bindings that the steps before have left: the body as it is evaluated from the bindings in which the
folding begins. -/
theorem Expr.FilledIn.answer_reduce {mark : Mark} {sequence base body : Expr}
    {accumulator element : Binding} {a e : Nat}
    (h : (Expr.reduce mark sequence base (accumulator.resolved a) (element.resolved e)
      body).FilledIn) (config : Config) (bindings : Bindings) (start : Value)
    (elements : List Value) :
    (Eval.reduce config a e (body.eval config) start elements bindings).answer =
      Named.reduce config.workers (body.applied config bindings a e) start elements := by
  obtain ⟨types, scope, type, elementType, hCover, hAccumulator, hElement, hDistinct, hBody⟩ :=
    h.lambda
  -- The names stand for what the bindings hold now. Later bindings differ in variables out of scope.
  let names : Names := fun name => (scope.lookup name).bind bindings.lookup
  have hShows : scope.Shows bindings names := by
    intro name id hLookup
    simp only [names, hLookup, Option.bind_some]
  have hInner : Function.update types a (some type) e = none := by
    rw [Function.update_of_ne hDistinct.symm, hElement]
  have hApplied (x y : Value) : body.named config (Function.update (Function.update names
      accumulator.name (some x)) element.name (some y)) = body.applied config bindings a e x y := by
    have hOuter : scope.enter.Shows bindings names := hShows
    have hBound := (hOuter.bind hCover.enter hAccumulator accumulator.name x).bind
      (hCover.enter.declare a type accumulator.name) hInner element.name y
    exact (hBody config _ _ hBound).answer_eq.symm
  have hStep (x y : Value) := hApplied x y ▸ hBody config (Function.update (Function.update names
    accumulator.name (some x)) element.name (some y))
  exact (Means.reduce hCover hAccumulator hElement hDistinct hStep start elements bindings
    hShows).answer_eq

section Product

variable {M : Type u} [Semigroup M]

/-- The product of the elements in their order. -/
def product (first : M) (rest : List M) : M := rest.foldl (· * ·) first

/-- The product of two blocks side by side, by associativity. -/
theorem product_append (x y : M) (xs ys : List M) :
    product x (xs ++ y :: ys) = product x xs * product y ys := by
  induction ys generalizing y with
  | nil => simp [product]
  | cons z ys ih =>
      calc
        product x (xs ++ y :: z :: ys) = product x (xs ++ (y * z) :: ys) := by
          simp [product, mul_assoc]
        _ = product x xs * product y (z :: ys) := ih (y * z)

/-- The body of a `reduce` multiplies the products of any two blocks that stand side by side among
the factors, and reports nothing. -/
structure Expr.Multiplies (config : Config) (body : Expr) (bindings : Bindings) (a e : Nat)
    (val : M → Value) (factors : List M) : Prop where
  ordinary : ∀ m, val m ≠ .error
  multiplied : ∀ x xs y ys, (x :: xs) ++ (y :: ys) <:+: factors →
    body.applied config bindings a e (val (product x xs)) (val (product y ys)) =
      ⟨val (product x xs * product y ys), []⟩

/-- The value of the product of a block. -/
def productValue (val : M → Value) : List M → Value
  | [] => .error
  | x :: xs => val (product x xs)

theorem Expr.Multiplies.joins {config : Config} {body : Expr} {bindings : Bindings} {a e : Nat}
    {val : M → Value} {factors : List M}
    (h : body.Multiplies config bindings a e val factors) :
    Joins (body.applied config bindings a e) (productValue val) factors := by
  constructor
  · intro block hBlock
    obtain ⟨x, xs, rfl⟩ := List.exists_cons_of_ne_nil hBlock
    exact h.ordinary _
  · intro left right hLeft hRight hInfix
    obtain ⟨x, xs, rfl⟩ := List.exists_cons_of_ne_nil hLeft
    obtain ⟨y, ys, rfl⟩ := List.exists_cons_of_ne_nil hRight
    rw [productValue, productValue, h.multiplied x xs y ys hInfix, List.cons_append, productValue,
      product_append]

/-- A checked `reduce` whose body multiplies is the product, as the strict fold from left to right is,
for every number of workers. -/
theorem Expr.Multiplies.answer_eq {mark : Mark} {sequence base body : Expr}
    {accumulator element : Binding} {a e : Nat}
    (hChecked : (Expr.reduce mark sequence base (accumulator.resolved a) (element.resolved e)
      body).Checked) {config : Config} {bindings : Bindings} {val : M → Value} {first : M}
    {rest : List M} (hFeeds : Feeds config sequence base bindings (val first) (rest.map val))
    (h : body.Multiplies config (foldBindings config sequence base bindings) a e val
      (first :: rest)) :
    ((Expr.reduce mark sequence base (accumulator.resolved a) (element.resolved e) body).eval config
      bindings).answer = ⟨val (product first rest), []⟩ := by
  rw [hFeeds.eval_reduce (h.ordinary first), hChecked.filledIn.answer_reduce]
  exact h.joins.reduce config.workers_pos

theorem Expr.Multiplies.foldLeft_eq {config : Config} {body : Expr} {bindings : Bindings}
    {a e : Nat} {val : M → Value} {first : M} {rest : List M}
    (h : body.Multiplies config bindings a e val (first :: rest)) :
    Sequential.foldLeft (body.applied config bindings a e) (val first) (rest.map val) =
      ⟨val (product first rest), []⟩ :=
  h.joins.foldSlice (List.cons_ne_nil first rest) List.infix_rfl

end Product

/-- The body `x + y` of a lambda with the variables `a` and `e`. -/
def Expr.addition (mark left right : Mark) (x y : String) (a e : Nat) : Expr :=
  .binary mark .add (.ref left x (some a)) (.ref right y (some e))

theorem Expr.eval_addition {a e : Nat} (mark left right : Mark) (x y : String) (config : Config)
    {bindings : Bindings} {v w : Value} (hLeft : bindings.lookup a = some v)
    (hRight : bindings.lookup e = some w) :
    (addition mark left right x y a e).eval config bindings =
      (Sequential.operate mark.span .add v w).outcome bindings := by
  simp [addition, eval, Eval.bind_apply, Eval.read, hLeft, hRight, Eval.settle_eq, Answer.outcome]

theorem Expr.applied_addition {a e : Nat} (hDistinct : a ≠ e) (mark left right : Mark)
    (x y : String) (config : Config) (bindings : Bindings) (v w : Value) :
    (addition mark left right x y a e).applied config bindings a e v w =
      Sequential.operate mark.span .add v w := by
  rw [applied, eval_addition mark left right x y config (v := v) (w := w)]
  · rfl
  · rw [Bindings.lookup_bind, if_neg hDistinct, Bindings.lookup_bind, if_pos rfl]
  · rw [Bindings.lookup_bind, if_pos rfl]

theorem Sequential.operate_add (span : Span) {x y z : Int64} (h : z.toInt = x.toInt + y.toInt) :
    operate span .add (.int x) (.int y) = ⟨.int z, []⟩ := by
  have hAdd : Integer.add? x y = some z := Integer.fit?_eq_some_iff.mpr h
  simp [operate, Operator.apply, Operator.onInts, Operator.exactly, hAdd]

/-- A word as an element of the additive group of the integers. -/
def Integer.addend (word : Int64) : Multiplicative Int := .ofAdd word.toInt

/-- The word for an integer, which is exact if the integer fits. -/
def Value.ofSum (sum : Multiplicative Int) : Value := .int (Int64.ofInt sum.toAdd)

theorem Value.ofSum_addend (word : Int64) : ofSum (Integer.addend word) = .int word := by
  simp [ofSum, Integer.addend]

theorem toAdd_product_addend (first : Multiplicative Int) (rest : List Int64) :
    (product first (rest.map Integer.addend)).toAdd =
      first.toAdd + (rest.map Int64.toInt).sum := by
  induction rest generalizing first with
  | nil => simp [product]
  | cons word rest ih =>
      calc
        (product first ((word :: rest).map Integer.addend)).toAdd =
            (product (first * Integer.addend word) (rest.map Integer.addend)).toAdd := rfl
        _ = first.toAdd + word.toInt + (rest.map Int64.toInt).sum := ih _
        _ = first.toAdd + ((word :: rest).map Int64.toInt).sum := by
          rw [List.map_cons, List.sum_cons, Int.add_assoc]

/-- Every block of words, wherever it stands in the list, has a sum that is a word. -/
def Integer.SumsFit (words : List Int64) : Prop :=
  ∀ block, block <:+: words → ∃ sum : Int64, sum.toInt = (block.map Int64.toInt).sum

instance Integer.decidableSumsFit (words : List Int64) : Decidable (SumsFit words) :=
  decidable_of_iff (∀ block ∈ words.tails.flatMap List.inits,
      (fit? (block.map Int64.toInt).sum).isSome = true) (by
    simp only [SumsFit, Option.isSome_iff_exists, fit?_eq_some_iff, List.mem_flatMap,
      List.mem_tails, List.mem_inits, List.infix_iff_prefix_suffix, and_comm])

theorem Integer.SumsFit.ofSum_eq {words : List Int64} (h : SumsFit words) {first : Int64}
    {rest : List Int64} (hInfix : first :: rest <:+: words) :
    ∃ sum : Int64, sum.toInt = first.toInt + (rest.map Int64.toInt).sum ∧
      Value.ofSum (product (addend first) (rest.map addend)) = .int sum := by
  obtain ⟨sum, hSum⟩ := h _ hInfix
  rw [List.map_cons, List.sum_cons] at hSum
  refine ⟨sum, hSum, ?_⟩
  rw [Value.ofSum, toAdd_product_addend, addend, toAdd_ofAdd, ← hSum, Int64.ofInt_toInt]

/-- Addition multiplies in the group of the integers, as long as the sums of all blocks are words. -/
theorem Expr.multiplies_addition {a e : Nat} (hDistinct : a ≠ e) (mark left right : Mark)
    (x y : String) (config : Config) (bindings : Bindings) {words : List Int64}
    (hFits : Integer.SumsFit words) :
    (addition mark left right x y a e).Multiplies config bindings a e Value.ofSum
      (words.map Integer.addend) := by
  constructor
  · simp [Value.ofSum]
  · intro u us v vs hInfix
    obtain ⟨block, hBlock, hEq⟩ := List.infix_map_iff.mp hInfix
    obtain ⟨front, back, rfl, hFront, hBack⟩ := List.map_eq_append_iff.mp hEq.symm
    obtain ⟨first, rest, rfl, rfl, rfl⟩ := List.map_eq_cons_iff.mp hFront
    obtain ⟨next, more, rfl, rfl, rfl⟩ := List.map_eq_cons_iff.mp hBack
    obtain ⟨one, hOne, hLeft⟩ := hFits.ofSum_eq ((List.prefix_append _ _).isInfix.trans hBlock)
    obtain ⟨two, hTwo, hRight⟩ := hFits.ofSum_eq ((List.suffix_append _ _).isInfix.trans hBlock)
    rw [List.cons_append] at hBlock
    obtain ⟨both, hBoth, hTotal⟩ := hFits.ofSum_eq hBlock
    have hExact : both.toInt = one.toInt + two.toInt := by
      rw [hOne, hTwo, hBoth, List.map_append, List.sum_append, List.map_cons, List.sum_cons,
        Int.add_assoc]
    rw [← product_append, ← List.map_cons, ← List.map_append, hLeft, hRight, hTotal,
      applied_addition hDistinct]
    exact Sequential.operate_add mark.span hExact

/-- For an associative operation, the grouping of a checked `reduce` cannot be seen. If the body
multiplies the products of blocks that stand side by side among the base and the elements, then the
`reduce` is the product of all of them, as the strict fold of the base over the elements is, nothing
is reported, and any other number of workers gives the same. In particular, sums are exact if those of
all blocks are words. -/
theorem reduce_associative {fold sequence base body : Expr} {mark : Mark}
    {accumulator element : Binding} {a e : Nat}
    (hFold : fold = .reduce mark sequence base (accumulator.resolved a) (element.resolved e) body)
    (hChecked : fold.Checked) (bindings : Bindings) :
    (∀ (M : Type u) [Semigroup M] (val : M → Value) (first : M) (rest : List M) (config : Config),
      Expr.Feeds config sequence base bindings (val first) (rest.map val) →
      body.Multiplies config (Expr.foldBindings config sequence base bindings) a e val
        (first :: rest) →
      (fold.eval config bindings).answer = ⟨val (product first rest), []⟩ ∧
      Sequential.foldLeft (body.applied config (Expr.foldBindings config sequence base bindings) a e)
        (val first) (rest.map val) = ⟨val (product first rest), []⟩ ∧
      ∀ other : Config, Expr.Feeds other sequence base bindings (val first) (rest.map val) →
        body.Multiplies other (Expr.foldBindings other sequence base bindings) a e val
          (first :: rest) →
        (fold.eval other bindings).answer = (fold.eval config bindings).answer) ∧
    ∀ bodyMark left right x y, body = .addition bodyMark left right x y a e →
      ∀ (b : Int64) (words : List Int64) (config : Config),
        Expr.Feeds config sequence base bindings (.int b) (words.map .int) →
        Integer.SumsFit (b :: words) →
        ∃ sum : Int64, sum.toInt = b.toInt + (words.map Int64.toInt).sum ∧
          (fold.eval config bindings).answer = ⟨.int sum, []⟩ := by
  subst hFold
  constructor
  · intro M _ val first rest config hFeeds hMultiplies
    have hAnswer := hMultiplies.answer_eq hChecked hFeeds
    refine ⟨hAnswer, hMultiplies.foldLeft_eq, ?_⟩
    intro other hOther hMultipliesOther
    rw [hAnswer, hMultipliesOther.answer_eq hChecked hOther]
  · rintro bodyMark left right x y rfl b words config hFeeds hFits
    obtain ⟨-, -, -, -, -, -, -, hDistinct, -⟩ := hChecked.filledIn.lambda
    have hMultiplies := Expr.multiplies_addition hDistinct bodyMark left right x y config
      (Expr.foldBindings config sequence base bindings) hFits
    have hWords : words.map Value.int = (words.map Integer.addend).map Value.ofSum := by
      simp only [List.map_map, Function.comp_def, Value.ofSum_addend]
    rw [← Value.ofSum_addend, hWords] at hFeeds
    obtain ⟨sum, hSum, hValue⟩ := hFits.ofSum_eq List.infix_rfl
    refine ⟨sum, hSum, ?_⟩
    rw [← hValue]
    exact hMultiplies.answer_eq hChecked hFeeds

/-- Two, three and four are added to the word `b` that is nine below the largest. Two workers add them
as `b + 2 + (3 + 4)` and three as `b + 2 + 3 + 4`. -/
theorem reduce_associative_sum :
    ∃ span fold, forwarded ["out reduce({2, 4}, 9223372036854775798, a b -> a + b)"] =
        [.out span fold] ∧
      fold.Checked ∧ Integer.SumsFit [9223372036854775798, 2, 3, 4] ∧
      (fold.eval (Config.ofWorkers 2) Bindings.empty).answer = ⟨.int Int64.maxValue, []⟩ ∧
      (fold.eval (Config.ofWorkers 3) Bindings.empty).answer =
        (fold.eval (Config.ofWorkers 2) Bindings.empty).answer ∧
      ∃ sum : Int64, sum.toInt = 9223372036854775798 + ([2, 3, 4].map Int64.toInt).sum ∧
        (fold.eval (Config.ofWorkers 3) Bindings.empty).answer = ⟨.int sum, []⟩ := by
  have hForwarded : forwarded ["out reduce({2, 4}, 9223372036854775798, a b -> a + b)"] =
      [.out ⟨⟨1, 1⟩, ⟨1, 54⟩⟩
        (.reduce ⟨⟨⟨1, 5⟩, ⟨1, 54⟩⟩, some .number⟩
          (.range ⟨⟨⟨1, 12⟩, ⟨1, 18⟩⟩, some (.sequence .number)⟩
            (.int ⟨⟨⟨1, 13⟩, ⟨1, 14⟩⟩, some .number⟩ 2)
            (.int ⟨⟨⟨1, 16⟩, ⟨1, 17⟩⟩, some .number⟩ 4))
          (.int ⟨⟨⟨1, 20⟩, ⟨1, 39⟩⟩, some .number⟩ 9223372036854775798)
          (Binding.resolved ⟨"a", ⟨⟨1, 41⟩, ⟨1, 42⟩⟩, none⟩ 0)
          (Binding.resolved ⟨"b", ⟨⟨1, 43⟩, ⟨1, 44⟩⟩, none⟩ 1)
          (.addition ⟨⟨⟨1, 48⟩, ⟨1, 53⟩⟩, some .number⟩ ⟨⟨⟨1, 48⟩, ⟨1, 49⟩⟩, some .number⟩
            ⟨⟨⟨1, 52⟩, ⟨1, 53⟩⟩, some .number⟩ "a" "b" 0 1))] := by
    decide +kernel
  generalize hFold : Expr.reduce _ _ _ _ _ _ = fold at hForwarded
  have hChecked : fold.Checked :=
    ⟨["out reduce({2, 4}, 9223372036854775798, a b -> a + b)"].flatMap parse, _,
      hForwarded ▸ List.mem_singleton_self _, by subst hFold; decide +kernel⟩
  have hFits : Integer.SumsFit [9223372036854775798, 2, 3, 4] := by decide +kernel
  obtain ⟨hProduct, hSums⟩ := reduce_associative hFold.symm hChecked Bindings.empty
  obtain ⟨hTwo, -, hOther⟩ := hProduct _ Value.ofSum _ _ (Config.ofWorkers 2) ⟨rfl, rfl⟩
    (Expr.multiplies_addition Nat.zero_ne_one _ _ _ _ _ _ _ hFits)
  have hThree := hOther (Config.ofWorkers 3) ⟨rfl, rfl⟩
    (Expr.multiplies_addition Nat.zero_ne_one _ _ _ _ _ _ _ hFits)
  exact ⟨_, _, hForwarded, hChecked, hFits, hTwo, hThree, hSums _ _ _ _ _ rfl _ _ _ ⟨rfl, rfl⟩ hFits⟩

end Progression
