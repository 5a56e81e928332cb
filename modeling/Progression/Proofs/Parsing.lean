import Progression.Proofs.Derivations

/-! The parser finds every derivation. Reading an admissible expression leaves the operations along
its right edge pending, and an operator or delimiter that follows joins them to the tree that was
derived. With what error-free runs read, the parser accepts exactly the grammar. -/

namespace Progression

namespace Parser

/-- Reading the lexemes leads from one state to the other, and nothing is reported or handed over
on the way. -/
def Reaches (parser : Parser) (xs : List Lexeme) (next : Parser) : Prop :=
  transduce step parser xs = ([], next)

namespace Reaches

variable {first second third : Parser} {x : Lexeme} {xs ys : List Lexeme}

theorem refl : first.Reaches [] first := rfl

theorem cons (hTake : first.take x = .on second) (hRest : second.Reaches xs third) :
    first.Reaches (x :: xs) third := by
  unfold Reaches at hRest ⊢
  rw [transduce_cons, step_of_on hTake, hRest]
  rfl

theorem transduce_append (h : first.Reaches xs second) :
    transduce step first (xs ++ ys) = transduce step second ys := by
  unfold Reaches at h
  rw [Progression.transduce_append, h, List.nil_append]

theorem trans (hFirst : first.Reaches xs second) (hSecond : second.Reaches ys third) :
    first.Reaches (xs ++ ys) third :=
  hFirst.transduce_append.trans hSecond

end Reaches

theorem collapse_eq {least : Nat} {e : Expr} {stack : List Frame}
    (h : ∀ q ∈ pending? stack, q < least) : collapse least e stack = (e, stack) := by
  unfold collapse
  split
  · next op _ =>
      have hLt := h op.precedence rfl
      rw [if_neg (by omega)]
  · rfl

theorem takeOperator_eq_takeEnd {goal : Goal} {stack : List Frame} {e : Expr} {x : Lexeme}
    (hx : x.token.operator? = none) :
    takeOperator goal stack e x = takeEnd goal e stack x := by
  obtain ⟨token, place⟩ := x
  cases token with
  | operator op => cases hx
  | _ => rfl

end Parser

open Progression.Parser

/-- Reading the lexemes of `e` as an operand makes the parser build `read`. The operations of
`pending` still wait for `last`, and whatever ends them joins them to `read`. -/
structure Expr.Read (e : Expr) (xs : List Lexeme) (read : Expr) (pending : List Frame)
    (last : Expr) : Prop where
  bare_eq : read.bare = e
  reaches : ∀ goal stack, (∀ q ∈ pending? stack, ∀ p ∈ e.precedence?, q < p) →
    Reaches (.expression goal stack .operand) xs
      (.expression goal (pending ++ stack) (.operator last))
  collapse_eq : ∀ least stack, (∀ p ∈ e.precedence?, least ≤ p) →
    collapse least last (pending ++ stack) = collapse least read stack
  takeEnd_eq : ∀ goal stack x,
    takeEnd goal last (pending ++ stack) x = takeEnd goal read stack x

namespace Expr.Read

variable {e read last : Expr} {xs : List Lexeme} {pending : List Frame}

theorem single (hBare : read.bare = e)
    (hReaches : ∀ goal stack, Reaches (.expression goal stack .operand) xs
      (.expression goal stack (.operator read))) : e.Read xs read [] read :=
  ⟨hBare, fun goal stack _ => hReaches goal stack, fun _ _ _ => rfl, fun _ _ _ => rfl⟩

/-- A delimiter is taken by the construct around the expression. -/
theorem delimited (h : e.Read xs read pending last) {goal : Goal} {stack : List Frame}
    {x : Lexeme} {next : Parser} (hStack : pending? stack = none)
    (hx : x.token.operator? = none) (hEnd : takeEnd goal read stack x = .on next) :
    Reaches (.expression goal stack .operand) (xs ++ [x]) next := by
  have hRead := h.reaches goal stack (by simp [hStack])
  have hTake : take (.expression goal (pending ++ stack) (.operator last)) x = .on next := by
    rw [← hEnd, ← h.takeEnd_eq]
    exact takeOperator_eq_takeEnd hx
  exact hRead.trans (.cons hTake .refl)

/-- The first lexeme of the next statement, or the end of the text, completes the statement. -/
theorem completed (h : e.Read xs read pending last) (goal : Goal) {x : Lexeme}
    (hx : x.token.operator? = none) (rest : List Lexeme) :
    (transduce step (.expression goal [] .operand) (xs ++ x :: rest)).1 =
      .statement (goal.statement read) :: (transduce step .statement (x :: rest)).1 := by
  have hRead := h.reaches goal [] nofun
  have hTake : take (.expression goal (pending ++ []) (.operator last)) x =
      .before (.statement (goal.statement read)) :=
    (takeOperator_eq_takeEnd hx).trans (h.takeEnd_eq goal [] x)
  rw [hRead.transduce_append]
  exact transduce_of_before hTake rest

theorem literal {n : Numeral} (h : n.Denotes .plain e) (a : Span) :
    ∃ read, e.Read [⟨n.token, a⟩] read [] read := by
  obtain ⟨read, hRead, hBare⟩ := h.place a
  have hNumber := Numeral.number_text.mpr hRead
  refine ⟨read, single hBare fun goal stack => .cons ?_ .refl⟩
  calc
    take (.expression goal stack .operand) ⟨n.token, a⟩ =
        takeNumber goal stack n.fraction.isSome n.text a :=
      Numeral.takeOperand_token goal stack a
    _ = .on (.expression goal stack (.operator read)) := by rw [takeNumber, hNumber]

theorem negated {n : Numeral} (hUnsigned : n.negative = false) {minus a : Span}
    (hAdjacent : a.start = minus.stop) (h : n.negate.Denotes .plain e) :
    ∃ read, e.Read [⟨.operator .sub, minus⟩, ⟨n.token, a⟩] read [] read := by
  obtain ⟨read, hRead, hBare⟩ := h.place (minus.cover a)
  have hNumber : number n.fraction.isSome ("-" ++ n.text) (minus.cover a) = .ok read := by
    rw [Numeral.minus_text hUnsigned]
    exact (Numeral.number_text (n := n.negate)).mpr hRead
  refine ⟨read, single hBare fun goal stack => .cons rfl (.cons ?_ .refl)⟩
  calc
    take (.expression goal stack (.literal minus)) ⟨n.token, a⟩ =
        takeNumber goal stack n.fraction.isSome ("-" ++ n.text) (minus.cover a) :=
      Numeral.takeLiteral_token goal stack hAdjacent
    _ = .on (.expression goal stack (.operator read)) := by rw [takeNumber, hNumber]

/-- The operator finds its left operand complete and waits for the right one. What the right operand
leaves pending binds tighter, so it is joined before the operation itself. -/
theorem binary {op : Operator} {left right leftRead rightRead leftLast rightLast : Expr}
    {ys : List Lexeme} {leftPending rightPending : List Frame}
    (hLeft : left.Read xs leftRead leftPending leftLast)
    (hRight : right.Read ys rightRead rightPending rightLast)
    (hLoose : ∀ p ∈ left.precedence?, op.precedence ≤ p)
    (hTight : ∀ p ∈ right.precedence?, op.precedence < p) (a : Span) :
    (Expr.binary .plain op left right).Read (xs ++ ⟨.operator op, a⟩ :: ys)
      (.joined op leftRead rightRead) (rightPending ++ [.rightOperand leftRead op]) rightLast where
  bare_eq := by
    rw [← hLeft.bare_eq, ← hRight.bare_eq]
    rfl
  reaches goal stack hStack := by
    have hOuter : ∀ q ∈ pending? stack, q < op.precedence := fun q hq => hStack q hq _ rfl
    -- All that the left operand leaves pending binds at least as tightly as `op`, and what waits
    -- outside binds looser, so the operator collapses exactly the left operand.
    have hBefore := hLeft.reaches goal stack fun q hq p hp =>
      Nat.lt_of_lt_of_le (hOuter q hq) (hLoose p hp)
    have hTake : take (.expression goal (leftPending ++ stack) (.operator leftLast))
        ⟨.operator op, a⟩ = .on (.expression goal (.rightOperand leftRead op :: stack) .operand) := by
      have hCollapse := (hLeft.collapse_eq op.precedence stack hLoose).trans
        (Parser.collapse_eq hOuter)
      simp only [take, takeWanted, takeOperator, hCollapse]
    have hAfter := hRight.reaches goal (.rightOperand leftRead op :: stack) fun q hq p hp => by
      cases hq
      exact hTight p hp
    rw [List.append_assoc]
    exact hBefore.trans (.cons hTake hAfter)
  collapse_eq least stack hLeast := by
    have hOp : least ≤ op.precedence := hLeast _ rfl
    have hJoin := hRight.collapse_eq least (.rightOperand leftRead op :: stack) fun p hp =>
      Nat.le_trans hOp (Nat.le_of_lt (hTight p hp))
    rw [List.append_assoc, List.singleton_append, hJoin, collapse, if_pos hOp]
  takeEnd_eq goal stack x := by
    rw [List.append_assoc, List.singleton_append, hRight.takeEnd_eq, takeEnd]

theorem paren (h : e.Read xs read pending last) (a b : Span) :
    ∃ whole, (Expr.paren .plain e).Read (⟨.leftParen, a⟩ :: xs ++ [⟨.rightParen, b⟩]) whole []
      whole := by
  refine ⟨.paren ⟨a.cover b, none⟩ read, single ?_ fun goal stack => .cons rfl ?_⟩
  · rw [← h.bare_eq]
    rfl
  · exact h.delimited rfl rfl rfl

variable {other otherRead otherLast : Expr} {ys : List Lexeme} {otherPending : List Frame}

theorem range (hLower : e.Read xs read pending last)
    (hUpper : other.Read ys otherRead otherPending otherLast) (a b c : Span) :
    ∃ whole, (Expr.range .plain e other).Read
      (⟨.leftBrace, a⟩ :: xs ++ ⟨.comma, b⟩ :: ys ++ [⟨.rightBrace, c⟩]) whole [] whole := by
  refine ⟨.range ⟨a.cover c, none⟩ read otherRead, single ?_ fun goal stack => ?_⟩
  · rw [← hLower.bare_eq, ← hUpper.bare_eq]
    rfl
  · have hToComma : Reaches (.expression goal (.lowerBound a :: stack) .operand)
        (xs ++ [⟨.comma, b⟩]) (.expression goal (.upperBound a read :: stack) .operand) :=
      hLower.delimited rfl rfl rfl
    have hToBrace : Reaches (.expression goal (.upperBound a read :: stack) .operand)
        (ys ++ [⟨.rightBrace, c⟩])
        (.expression goal stack (.operator (.range ⟨a.cover c, none⟩ read otherRead))) :=
      hUpper.delimited rfl rfl rfl
    simpa using Reaches.cons rfl (hToComma.trans hToBrace)

theorem map (hArgument : e.Read xs read pending last)
    (hBody : other.Read ys otherRead otherPending otherLast) (param : String)
    (keyword opening comma place arrow closing : Span) :
    ∃ whole, (Expr.map .plain e (.plain param) other).Read
      (⟨.identifier "map", keyword⟩ :: ⟨.leftParen, opening⟩ :: xs ++ ⟨.comma, comma⟩ ::
        ⟨.identifier param, place⟩ :: ⟨.arrow, arrow⟩ :: ys ++ [⟨.rightParen, closing⟩])
      whole [] whole := by
  let binding : Binding := ⟨param, place, none⟩
  let whole : Expr := .map ⟨keyword.cover closing, none⟩ read binding otherRead
  refine ⟨whole, single ?_ fun goal stack => ?_⟩
  · rw [← hArgument.bare_eq, ← hBody.bare_eq]
    rfl
  · have hToComma : Reaches (.expression goal (.mapArgument keyword :: stack) .operand)
        (xs ++ [⟨.comma, comma⟩]) (.expression goal stack (.mapParameter keyword read)) :=
      hArgument.delimited rfl rfl rfl
    have hToBody : Reaches (.expression goal stack (.mapParameter keyword read))
        [⟨.identifier param, place⟩, ⟨.arrow, arrow⟩]
        (.expression goal (.mapBody keyword read binding :: stack) .operand) := rfl
    have hToClosing : Reaches (.expression goal (.mapBody keyword read binding :: stack) .operand)
        (ys ++ [⟨.rightParen, closing⟩]) (.expression goal stack (.operator whole)) :=
      hBody.delimited rfl rfl rfl
    simpa using Reaches.cons rfl (.cons rfl ((hToComma.trans hToBody).trans hToClosing))

theorem reduce {body bodyRead bodyLast : Expr} {zs : List Lexeme} {bodyPending : List Frame}
    (hSequence : e.Read xs read pending last)
    (hBase : other.Read ys otherRead otherPending otherLast)
    (hBody : body.Read zs bodyRead bodyPending bodyLast) (accumulator element : String)
    (keyword opening comma comma' place place' arrow closing : Span) :
    ∃ whole, (Expr.reduce .plain e other (.plain accumulator) (.plain element) body).Read
      (⟨.identifier "reduce", keyword⟩ :: ⟨.leftParen, opening⟩ :: xs ++ ⟨.comma, comma⟩ :: ys ++
        ⟨.comma, comma'⟩ :: ⟨.identifier accumulator, place⟩ :: ⟨.identifier element, place'⟩ ::
          ⟨.arrow, arrow⟩ :: zs ++ [⟨.rightParen, closing⟩]) whole [] whole := by
  let first : Binding := ⟨accumulator, place, none⟩
  let second : Binding := ⟨element, place', none⟩
  let whole : Expr :=
    .reduce ⟨keyword.cover closing, none⟩ read otherRead first second bodyRead
  refine ⟨whole, single ?_ fun goal stack => ?_⟩
  · rw [← hSequence.bare_eq, ← hBase.bare_eq, ← hBody.bare_eq]
    rfl
  · have hToBase : Reaches (.expression goal (.reduceSequence keyword :: stack) .operand)
        (xs ++ [⟨.comma, comma⟩])
        (.expression goal (.reduceBase keyword read :: stack) .operand) :=
      hSequence.delimited rfl rfl rfl
    have hToLambda : Reaches (.expression goal (.reduceBase keyword read :: stack) .operand)
        (ys ++ [⟨.comma, comma'⟩])
        (.expression goal stack (.accumulator keyword read otherRead)) :=
      hBase.delimited rfl rfl rfl
    have hToBody : Reaches (.expression goal stack (.accumulator keyword read otherRead))
        [⟨.identifier accumulator, place⟩, ⟨.identifier element, place'⟩, ⟨.arrow, arrow⟩]
        (.expression goal (.reduceBody keyword read otherRead first second :: stack) .operand) :=
      rfl
    have hToClosing : Reaches
        (.expression goal (.reduceBody keyword read otherRead first second :: stack) .operand)
        (zs ++ [⟨.rightParen, closing⟩]) (.expression goal stack (.operator whole)) :=
      hBody.delimited rfl rfl rfl
    simpa using Reaches.cons rfl
      (.cons rfl (((hToBase.trans hToLambda).trans hToBody).trans hToClosing))

end Expr.Read

/-- The parser reads every admissible expression. -/
theorem Expr.Written.read {e : Expr} {xs : List Lexeme} (h : e.Written xs)
    (hAdmissible : e.Admissible) : ∃ read pending last, e.Read xs read pending last := by
  induction h with
  | @literal n e a h =>
      obtain ⟨read, hRead⟩ := Expr.Read.literal h a
      exact ⟨read, [], read, hRead⟩
  | negated hUnsigned hAdjacent h =>
      obtain ⟨read, hRead⟩ := Expr.Read.negated hUnsigned hAdjacent h
      exact ⟨read, [], read, hRead⟩
  | @ref name a hMap hReduce =>
      refine ⟨.ref ⟨a, none⟩ name none, [], _, .single rfl fun goal stack => .cons ?_ .refl⟩
      simp [take, takeWanted, takeOperand, hMap, hReduce]
  | @binary op left right xs ys a hLeft hRight ihLeft ihRight =>
      obtain ⟨hLoose, hTight, hAdmissibleLeft, hAdmissibleRight⟩ := hAdmissible
      obtain ⟨_, _, _, hReadLeft⟩ := ihLeft hAdmissibleLeft
      obtain ⟨_, _, _, hReadRight⟩ := ihRight hAdmissibleRight
      exact ⟨_, _, _, hReadLeft.binary hReadRight hLoose hTight a⟩
  | @paren inner xs a b h ih =>
      obtain ⟨_, _, _, hRead⟩ := ih hAdmissible
      obtain ⟨whole, hWhole⟩ := hRead.paren a b
      exact ⟨whole, [], whole, hWhole⟩
  | @range lower upper xs ys a b c hLower hUpper ihLower ihUpper =>
      obtain ⟨_, _, _, hReadLower⟩ := ihLower hAdmissible.1
      obtain ⟨_, _, _, hReadUpper⟩ := ihUpper hAdmissible.2
      obtain ⟨whole, hWhole⟩ := hReadLower.range hReadUpper a b c
      exact ⟨whole, [], whole, hWhole⟩
  | @map argument body param xs ys a b c d e f hArgument hBody ihArgument ihBody =>
      obtain ⟨_, _, _, hReadArgument⟩ := ihArgument hAdmissible.1
      obtain ⟨_, _, _, hReadBody⟩ := ihBody hAdmissible.2
      obtain ⟨whole, hWhole⟩ := hReadArgument.map hReadBody param a b c d e f
      exact ⟨whole, [], whole, hWhole⟩
  | @reduce sequence base body accumulator element xs ys zs a b c d e f g h hSequence hBase hBody
      ihSequence ihBase ihBody =>
      obtain ⟨hAdmissibleSequence, hAdmissibleBase, hAdmissibleBody⟩ := hAdmissible
      obtain ⟨_, _, _, hReadSequence⟩ := ihSequence hAdmissibleSequence
      obtain ⟨_, _, _, hReadBase⟩ := ihBase hAdmissibleBase
      obtain ⟨_, _, _, hReadBody⟩ := ihBody hAdmissibleBody
      obtain ⟨whole, hWhole⟩ :=
        hReadSequence.reduce hReadBase hReadBody accumulator element a b c d e f g h
      exact ⟨whole, [], whole, hWhole⟩

/-- The parser hands over every derived statement as soon as it sees what follows. -/
theorem Statement.Derived.handed {s : Statement} {xs : List Lexeme} (h : s.Derived xs) :
    ∃ read : Statement, read.bare = s ∧ ∀ (x : Lexeme) (rest : List Lexeme),
      x.token.operator? = none → (transduce step .statement (xs ++ x :: rest)).1 =
        .statement read :: (transduce step .statement (x :: rest)).1 := by
  cases h with
  | @assign target value xs a b c h =>
      obtain ⟨read, _, _, hRead⟩ := h.written.read h.admissible
      refine ⟨(Goal.assign a ⟨target, b, none⟩).statement read, ?_, fun x rest hx => ?_⟩
      · rw [← hRead.bare_eq]
        rfl
      · have hBegun : Reaches .statement
            [⟨.identifier "var", a⟩, ⟨.identifier target, b⟩, ⟨.assign, c⟩]
            (.expression (.assign a ⟨target, b, none⟩) [] .operand) := rfl
        exact (congrArg Prod.fst hBegun.transduce_append).trans (hRead.completed _ hx rest)
  | @out value xs a h =>
      obtain ⟨read, _, _, hRead⟩ := h.written.read h.admissible
      refine ⟨(Goal.out a).statement read, ?_, fun x rest hx => ?_⟩
      · rw [← hRead.bare_eq]
        rfl
      · have hBegun : Reaches .statement [⟨.identifier "out", a⟩]
            (.expression (.out a) [] .operand) := rfl
        exact (congrArg Prod.fst hBegun.transduce_append).trans (hRead.completed _ hx rest)
  | @print content a b => exact ⟨.print (a.cover b) content, rfl, fun _ _ _ => rfl⟩

theorem Derivation.head_not_operator {program : List Statement} {xs : List Lexeme}
    (h : Derivation program xs) {last : Lexeme} (hLast : last.token = .finish) :
    ∃ x rest, xs ++ [last] = x :: rest ∧ x.token.operator? = none := by
  cases h with
  | nil => exact ⟨last, [], rfl, by rw [hLast]; rfl⟩
  | cons h _ => cases h <;> exact ⟨_, _, rfl, rfl⟩

/-- The parser hands over every derived program, and reports nothing. -/
theorem Derivation.handed {program : List Statement} {xs : List Lexeme}
    (h : Derivation program xs) {last : Lexeme} (hLast : last.token = .finish) :
    ∃ read : List Statement, read.map Statement.bare = program ∧
      (transduce step .statement (xs ++ [last])).1 = read.map Event.statement := by
  induction h with
  | nil =>
      have hFinished : take .statement last = .on .statement := by simp [take, begin, hLast]
      exact ⟨[], rfl, transduce_of_on hFinished []⟩
  | @cons s program xs ys hs hRest ih =>
      obtain ⟨first, hFirst, hHanded⟩ := hs.handed
      obtain ⟨read, hRead, hEvents⟩ := ih
      obtain ⟨x, rest, hNext, hx⟩ := hRest.head_not_operator hLast
      refine ⟨first :: read, by rw [List.map_cons, hFirst, hRead], ?_⟩
      rw [List.append_assoc, hNext, hHanded x rest hx, ← hNext, hEvents, List.map_cons]

theorem Parser.transduce_feed {xs : List Lexeme} (h : ∀ x ∈ xs, x.token.isComment = false)
    (parser : Parser) :
    transduce feed parser (xs.map Lexed.lexeme) = transduce step parser xs := by
  induction xs generalizing parser with
  | nil => rfl
  | cons x xs ih =>
      have hFeed : parser.feed (.lexeme x) = parser.step x := by
        rw [feed, if_neg (by simp [h x (by simp)])]
      rw [List.map_cons, transduce_cons, transduce_cons, hFeed,
        ih fun y hy => h y (by simp [hy])]

/-- What the parser makes of lexemes, the last of which is the end of a text. -/
def parseLexemes (xs : List Lexeme) : List Event :=
  (transduce feed first (xs.map Lexed.lexeme)).1

/-- The parser accepts exactly the grammar: it hands over a program without a report if and only if
the lexemes before the end are a derivation of it, up to spans. So no lexemes have derivations of
two programs. -/
theorem parses_iff_derivation {xs : List Lexeme} {last : Lexeme} (hLast : last.token = .finish)
    (hComment : ∀ x ∈ xs, x.token.isComment = false) (hFinish : ∀ x ∈ xs, x.token ≠ .finish)
    (hLegible : ∀ x ∈ xs, x.token.Legible) :
    (∀ program : List Statement,
      (reports (parseLexemes (xs ++ [last])) = [] ∧
        (statements (parseLexemes (xs ++ [last]))).map Statement.bare =
          program.map Statement.bare) ↔
        Derivation (program.map Statement.bare) xs) ∧
    ∀ program other, Derivation program xs → Derivation other xs → program = other := by
  have hEvents : parseLexemes (xs ++ [last]) = (transduce step first (xs ++ [last])).1 := by
    have hAll : ∀ x ∈ xs ++ [last], x.token.isComment = false := by
      intro x hx
      rcases List.mem_append.mp hx with hMem | hMem
      · exact hComment x hMem
      · rw [List.mem_singleton.mp hMem, hLast]
        rfl
    rw [parseLexemes, transduce_feed hAll]
  rw [hEvents]
  refine ⟨fun program => ⟨?_, ?_⟩, ?_⟩
  · rintro ⟨hReports, hStatements⟩
    rw [← hStatements]
    exact derivation_of_run hLast hLegible hFinish .statement hReports
  · intro hDerivation
    obtain ⟨read, hRead, hRun⟩ := hDerivation.handed hLast
    rw [first, hRun]
    simp [hRead]
  · intro program other hProgram hOther
    obtain ⟨read, hRead, hRun⟩ := hProgram.handed hLast
    obtain ⟨otherRead, hOtherRead, hOtherRun⟩ := hOther.handed hLast
    have hSame : read = otherRead := by
      rw [← statements_map_statement read, ← hRun, hOtherRun, statements_map_statement]
    rw [← hRead, ← hOtherRead, hSame]

theorem parses_iff_derivation_grouped :
    let source := "out 1 - -2 * a ^ 2 - reduce(s, 0, a b -> a + b)"
    let xs := ((lex source).filterMap Lexed.lexeme?).dropLast
    let program : List Statement := [.out (.point .first)
      (.binary .plain .sub
        (.binary .plain .sub (.int .plain 1)
          (.binary .plain .mul (.int .plain (-2))
            (.binary .plain .pow (.ref .plain "a" none) (.int .plain 2))))
        (.reduce .plain (.ref .plain "s" none) (.int .plain 0) (.plain "a") (.plain "b")
          (.binary .plain .add (.ref .plain "a" none) (.ref .plain "b" none))))]
    (∀ x ∈ xs, x.token.isComment = false) ∧ (∀ x ∈ xs, x.token ≠ .finish) ∧
      (∀ x ∈ xs, x.token.Legible) ∧ Derivation (program.map Statement.bare) xs := by
  intro source xs program
  have hLast : (⟨.finish, .point .first⟩ : Lexeme).token = .finish := rfl
  have hComment : ∀ x ∈ xs, x.token.isComment = false := by decide +kernel
  have hFinish : ∀ x ∈ xs, x.token ≠ .finish := by decide +kernel
  have hLegible : ∀ x ∈ xs, x.token.Legible := by
    intro x hx
    exact lex_legible source x ((List.dropLast_sublist _).subset hx)
  have hAccepts := (parses_iff_derivation hLast hComment hFinish hLegible).1 program
  exact ⟨hComment, hFinish, hLegible, hAccepts.mp (by decide +kernel)⟩

end Progression
