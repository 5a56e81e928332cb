import Mathlib.Logic.Relation
import Progression.Proofs.Attempts
import Progression.Proofs.Numerals

/-! Where the parts of a program stand. Every statement, expression and binding is made of lexemes that
follow each other in the text, and its parts are made of some of them, in the same order. The parser puts
its span together from those of its first and its last part; since lexemes never go back in the text, this
is the span from the first lexeme to the last. -/

namespace Progression

/-- A node of a syntax tree. -/
inductive Node where
  | statement (s : Statement)
  | expr (e : Expr)
  | binding (b : Binding)

namespace Node

/-- Where the node stands. -/
def span : Node → Span
  | statement s => s.span
  | expr e => e.span
  | binding b => b.span

/-- The parts of a node, in the order in which they are written. -/
def children : Node → List Node
  | statement (.assign _ target value) => [binding target, expr value]
  | statement (.out _ value) => [expr value]
  | statement (.print _ _) => []
  | expr (.int _ _) | expr (.float _ _) | expr (.ref _ _ _) => []
  | expr (.binary _ _ left right) => [expr left, expr right]
  | expr (.paren _ inner) => [expr inner]
  | expr (.range _ lower upper) => [expr lower, expr upper]
  | expr (.map _ argument param body) => [expr argument, binding param, expr body]
  | expr (.reduce _ sequence base accumulator element body) =>
      [expr sequence, expr base, binding accumulator, binding element, expr body]
  | binding _ => []

/-- The node is the root of the tree or a part of one of its nodes. -/
def Has : Node → Node → Prop := Relation.ReflTransGen fun parent child => child ∈ parent.children

/-- The node is made of the lexemes, each of its parts of those that belong to it, and its span is put
together from its first and its last part. -/
inductive MadeOf : Node → List Lexeme → Prop where
  | binding (name : String) (a : Span) :
      MadeOf (.binding ⟨name, a, none⟩) [⟨.identifier name, a⟩]
  | literal {n : Numeral} {e : Expr} {a : Span} (h : n.Denotes ⟨a, none⟩ e) :
      MadeOf (.expr e) [⟨n.token, a⟩]
  | negated {n : Numeral} {e : Expr} {minus a : Span} (h : n.negate.Denotes ⟨minus.cover a, none⟩ e) :
      MadeOf (.expr e) [⟨.operator .sub, minus⟩, ⟨n.token, a⟩]
  | ref (name : String) (a : Span) :
      MadeOf (.expr (.ref ⟨a, none⟩ name none)) [⟨.identifier name, a⟩]
  | joined (op : Operator) (a : Span) {left right : Expr} {xs ys : List Lexeme}
      (hLeft : MadeOf (.expr left) xs) (hRight : MadeOf (.expr right) ys) :
      MadeOf (.expr (.joined op left right)) (xs ++ ⟨.operator op, a⟩ :: ys)
  | paren (a b : Span) {inner : Expr} {xs : List Lexeme} (h : MadeOf (.expr inner) xs) :
      MadeOf (.expr (.paren ⟨a.cover b, none⟩ inner))
        (⟨.leftParen, a⟩ :: xs ++ [⟨.rightParen, b⟩])
  | range (a b c : Span) {lower upper : Expr} {xs ys : List Lexeme}
      (hLower : MadeOf (.expr lower) xs) (hUpper : MadeOf (.expr upper) ys) :
      MadeOf (.expr (.range ⟨a.cover c, none⟩ lower upper))
        (⟨.leftBrace, a⟩ :: xs ++ ⟨.comma, b⟩ :: ys ++ [⟨.rightBrace, c⟩])
  | map (a b c d e : Span) {argument body : Expr} {param : Binding} {xs ps ys : List Lexeme}
      (hArgument : MadeOf (.expr argument) xs) (hParam : MadeOf (.binding param) ps)
      (hBody : MadeOf (.expr body) ys) :
      MadeOf (.expr (.map ⟨a.cover e, none⟩ argument param body))
        (⟨.identifier "map", a⟩ :: ⟨.leftParen, b⟩ :: xs ++ ⟨.comma, c⟩ :: ps ++ ⟨.arrow, d⟩ :: ys ++
          [⟨.rightParen, e⟩])
  | reduce (a b c d e f : Span) {sequence base body : Expr} {accumulator element : Binding}
      {xs ys ps qs zs : List Lexeme} (hSequence : MadeOf (.expr sequence) xs)
      (hBase : MadeOf (.expr base) ys) (hAccumulator : MadeOf (.binding accumulator) ps)
      (hElement : MadeOf (.binding element) qs) (hBody : MadeOf (.expr body) zs) :
      MadeOf (.expr (.reduce ⟨a.cover f, none⟩ sequence base accumulator element body))
        (⟨.identifier "reduce", a⟩ :: ⟨.leftParen, b⟩ :: xs ++ ⟨.comma, c⟩ :: ys ++ ⟨.comma, d⟩ ::
          ps ++ qs ++ ⟨.arrow, e⟩ :: zs ++ [⟨.rightParen, f⟩])
  | assign (a b : Span) {target : Binding} {value : Expr} {ts xs : List Lexeme}
      (hTarget : MadeOf (.binding target) ts) (hValue : MadeOf (.expr value) xs) :
      MadeOf (.statement (.assign (a.cover value.span) target value))
        (⟨.identifier "var", a⟩ :: ts ++ ⟨.assign, b⟩ :: xs)
  | out (a : Span) {value : Expr} {xs : List Lexeme} (hValue : MadeOf (.expr value) xs) :
      MadeOf (.statement (.out (a.cover value.span) value)) (⟨.identifier "out", a⟩ :: xs)
  | print (content : String) (a b : Span) :
      MadeOf (.statement (.print (a.cover b) content))
        [⟨.identifier "print", a⟩, ⟨.text content, b⟩]

end Node

/-- The lexemes that lead up to the expression of a statement. -/
inductive Goal.MadeOf : Goal → List Lexeme → Prop where
  | assign (keyword a : Span) {target : Binding} {ts : List Lexeme}
      (hTarget : (Node.binding target).MadeOf ts) :
      MadeOf (.assign keyword target) (⟨.identifier "var", keyword⟩ :: ts ++ [⟨.assign, a⟩])
  | out (keyword : Span) : MadeOf (.out keyword) [⟨.identifier "out", keyword⟩]

/-- The word that the operator is written with. -/
def Bulk.word : Bulk → String
  | map => "map"
  | reduce => "reduce"

/-- The lexemes since the last construct was entered or the last operator was read. -/
inductive Want.MadeOf : Want → List Lexeme → Prop where
  | operand : MadeOf .operand []
  | literal (minus : Span) : MadeOf (.literal minus) [⟨.operator .sub, minus⟩]
  | operator {e : Expr} {xs : List Lexeme} (h : (Node.expr e).MadeOf xs) : MadeOf (.operator e) xs
  | opening (keyword : Span) (bulk : Bulk) :
      MadeOf (.opening keyword bulk) [⟨.identifier bulk.word, keyword⟩]
  | mapParameter (keyword a b : Span) {argument : Expr} {xs : List Lexeme}
      (hArgument : (Node.expr argument).MadeOf xs) :
      MadeOf (.mapParameter keyword argument)
        (⟨.identifier "map", keyword⟩ :: ⟨.leftParen, a⟩ :: xs ++ [⟨.comma, b⟩])
  | mapArrow {keyword : Span} {argument : Expr} {param : Binding} {xs ps : List Lexeme}
      (h : MadeOf (.mapParameter keyword argument) xs) (hParam : (Node.binding param).MadeOf ps) :
      MadeOf (.mapArrow keyword argument param) (xs ++ ps)
  | accumulator (keyword a b c : Span) {sequence base : Expr} {xs ys : List Lexeme}
      (hSequence : (Node.expr sequence).MadeOf xs) (hBase : (Node.expr base).MadeOf ys) :
      MadeOf (.accumulator keyword sequence base)
        (⟨.identifier "reduce", keyword⟩ :: ⟨.leftParen, a⟩ :: xs ++ ⟨.comma, b⟩ :: ys ++ [⟨.comma, c⟩])
  | element {keyword : Span} {sequence base : Expr} {accumulator : Binding} {xs ps : List Lexeme}
      (h : MadeOf (.accumulator keyword sequence base) xs)
      (hAccumulator : (Node.binding accumulator).MadeOf ps) :
      MadeOf (.element keyword sequence base accumulator) (xs ++ ps)
  | reduceArrow {keyword : Span} {sequence base : Expr} {accumulator element : Binding}
      {xs qs : List Lexeme} (h : MadeOf (.element keyword sequence base accumulator) xs)
      (hElement : (Node.binding element).MadeOf qs) :
      MadeOf (.reduceArrow keyword sequence base accumulator element) (xs ++ qs)

/-- The lexemes of a construct up to the expression that it waits for. -/
inductive Frame.MadeOf : Frame → List Lexeme → Prop where
  | rightOperand (op : Operator) (a : Span) {left : Expr} {xs : List Lexeme}
      (hLeft : (Node.expr left).MadeOf xs) :
      MadeOf (.rightOperand left op) (xs ++ [⟨.operator op, a⟩])
  | paren (opening : Span) : MadeOf (.paren opening) [⟨.leftParen, opening⟩]
  | lowerBound (opening : Span) : MadeOf (.lowerBound opening) [⟨.leftBrace, opening⟩]
  | upperBound (opening a : Span) {lower : Expr} {xs : List Lexeme}
      (hLower : (Node.expr lower).MadeOf xs) :
      MadeOf (.upperBound opening lower) (⟨.leftBrace, opening⟩ :: xs ++ [⟨.comma, a⟩])
  | mapArgument (keyword a : Span) :
      MadeOf (.mapArgument keyword) [⟨.identifier "map", keyword⟩, ⟨.leftParen, a⟩]
  | mapBody (keyword a : Span) {argument : Expr} {param : Binding} {xs : List Lexeme}
      (h : Want.MadeOf (.mapArrow keyword argument param) xs) :
      MadeOf (.mapBody keyword argument param) (xs ++ [⟨.arrow, a⟩])
  | reduceSequence (keyword a : Span) :
      MadeOf (.reduceSequence keyword) [⟨.identifier "reduce", keyword⟩, ⟨.leftParen, a⟩]
  | reduceBase (keyword a b : Span) {sequence : Expr} {xs : List Lexeme}
      (hSequence : (Node.expr sequence).MadeOf xs) :
      MadeOf (.reduceBase keyword sequence)
        (⟨.identifier "reduce", keyword⟩ :: ⟨.leftParen, a⟩ :: xs ++ [⟨.comma, b⟩])
  | reduceBody (keyword a : Span) {sequence base : Expr} {accumulator element : Binding}
      {xs : List Lexeme}
      (h : Want.MadeOf (.reduceArrow keyword sequence base accumulator element) xs) :
      MadeOf (.reduceBody keyword sequence base accumulator element) (xs ++ [⟨.arrow, a⟩])

/-- The lexemes of all unfinished constructs, the outermost first. -/
inductive StackMadeOf : List Frame → List Lexeme → Prop where
  | nil : StackMadeOf [] []
  | cons {frame : Frame} {stack : List Frame} {zs xs : List Lexeme} (hStack : StackMadeOf stack zs)
      (hFrame : frame.MadeOf xs) : StackMadeOf (frame :: stack) (zs ++ xs)

namespace Parser

/-- The lexemes of the statement at hand. -/
inductive MadeOf : Parser → List Lexeme → Prop where
  | target (keyword : Span) : MadeOf (.target keyword) [⟨.identifier "var", keyword⟩]
  | equals (keyword : Span) {target : Binding} {ts : List Lexeme}
      (hTarget : (Node.binding target).MadeOf ts) :
      MadeOf (.equals keyword target) (⟨.identifier "var", keyword⟩ :: ts)
  | text (keyword : Span) : MadeOf (.text keyword) [⟨.identifier "print", keyword⟩]
  | expression {goal : Goal} {stack : List Frame} {want : Want} {gs zs xs all : List Lexeme}
      (hGoal : goal.MadeOf gs) (hStack : StackMadeOf stack zs) (hWant : want.MadeOf xs)
      (hAll : gs ++ (zs ++ xs) = all) : MadeOf (.expression goal stack want) all

/-- What a lexeme makes of the statement of which the lexemes `zs` were read: it belongs to it, the
statement is complete with it or without it, or a report ends the attempt. -/
inductive Adds (zs : List Lexeme) (x : Lexeme) : Reaction → Prop where
  | on {next : Parser} (h : next.MadeOf (zs ++ [x])) : Adds zs x (.on next)
  | last {s : Statement} (h : (Node.statement s).MadeOf (zs ++ [x])) :
      Adds zs x (.last (.statement s))
  | before {s : Statement} (h : (Node.statement s).MadeOf zs) : Adds zs x (.before (.statement s))
  | refused {d : Diagnostic} : Adds zs x (.last (.report d))
  | missed {d : Diagnostic} : Adds zs x (.before (.report d))

variable {parser : Parser} {goal : Goal} {stack : List Frame} {gs zs xs : List Lexeme} {x : Lexeme}
  {e : Expr}

theorem adds_expected {token : Token} (wanted : Wanted) {next : Parser}
    (h : next.MadeOf (zs ++ [⟨token, x.span⟩])) :
    Adds zs x (if x.token = token then .on next else fail wanted x) := by
  split
  · next hx =>
      subst hx
      exact .on h
  · exact .missed

theorem madeOf_statement (hGoal : goal.MadeOf gs) (he : (Node.expr e).MadeOf xs) :
    (Node.statement (goal.statement e)).MadeOf (gs ++ xs) := by
  cases hGoal with
  | assign keyword a hTarget => simpa [Goal.statement] using Node.MadeOf.assign keyword a hTarget he
  | out keyword => exact .out keyword he

section Expression

variable (hGoal : goal.MadeOf gs)

include hGoal

theorem madeOf_push (hStack : StackMadeOf stack zs) {frame : Frame} (hFrame : frame.MadeOf xs)
    {all : List Lexeme} (hAll : gs ++ (zs ++ xs) = all) :
    (expression goal (frame :: stack) .operand).MadeOf all :=
  .expression hGoal (.cons hStack hFrame) .operand (by simpa using hAll)

theorem adds_takeEnd (hStack : StackMadeOf stack zs) (he : (Node.expr e).MadeOf xs) :
    Adds (gs ++ (zs ++ xs)) x (takeEnd goal e stack x) := by
  induction hStack generalizing e xs with
  | nil => exact .before (madeOf_statement hGoal he)
  | cons hStack hFrame ih =>
      cases hFrame with
      | rightOperand op a hLeft => simpa [takeEnd] using ih (hLeft.joined op a he)
      | paren opening =>
          exact adds_expected _
            (.expression hGoal hStack (.operator (he.paren opening x.span)) (by simp))
      | lowerBound opening =>
          exact adds_expected _ (madeOf_push hGoal hStack (.upperBound opening x.span he) (by simp))
      | upperBound opening a hLower =>
          exact adds_expected _
            (.expression hGoal hStack (.operator (hLower.range opening a x.span he)) (by simp))
      | mapArgument keyword a =>
          exact adds_expected _
            (.expression hGoal hStack (.mapParameter keyword a x.span he) (by simp))
      | mapBody keyword c h =>
          cases h with
          | mapArrow h hParam =>
              cases h with
              | mapParameter _ a b hArgument =>
                  have hMap := hArgument.map keyword a b c x.span hParam he
                  exact adds_expected _ (.expression hGoal hStack (.operator hMap) (by simp))
      | reduceSequence keyword a =>
          exact adds_expected _ (madeOf_push hGoal hStack (.reduceBase keyword a x.span he) (by simp))
      | reduceBase keyword a b hSequence =>
          exact adds_expected _
            (.expression hGoal hStack (.accumulator keyword a b x.span hSequence he) (by simp))
      | reduceBody keyword d h =>
          cases h with
          | reduceArrow h hElement =>
              cases h with
              | element h hAccumulator =>
                  cases h with
                  | accumulator _ a b c hSequence hBase =>
                      have hReduce :=
                        hSequence.reduce keyword a b c d x.span hBase hAccumulator hElement he
                      exact adds_expected _
                        (.expression hGoal hStack (.operator hReduce) (by simp))

omit hGoal in
/-- Collapsing rearranges what was read into a left operand for the operator that comes next. -/
theorem collapse_madeOf (least : Nat) (hStack : StackMadeOf stack zs)
    (he : (Node.expr e).MadeOf xs) :
    ∃ outer ys, outer ++ ys = zs ++ xs ∧ StackMadeOf (collapse least e stack).2 outer ∧
      (Node.expr (collapse least e stack).1).MadeOf ys := by
  induction hStack generalizing e xs with
  | nil => exact ⟨[], xs, rfl, .nil, he⟩
  | cons hStack hFrame ih =>
      have hFrames := hStack.cons hFrame
      cases hFrame with
      | rightOperand op a hLeft =>
          rw [collapse]
          split
          · obtain ⟨outer, ys, hAll, hRest⟩ := ih (hLeft.joined op a he)
            exact ⟨outer, ys, by simpa using hAll, hRest⟩
          · exact ⟨_, xs, rfl, hFrames, he⟩
      | _ => exact ⟨_, xs, rfl, hFrames, he⟩

theorem adds_takeOperator (hStack : StackMadeOf stack zs) (he : (Node.expr e).MadeOf xs) :
    Adds (gs ++ (zs ++ xs)) x (takeOperator goal stack e x) := by
  obtain ⟨token, place⟩ := x
  cases token with
  | operator op =>
      -- What was read stays the same, but less of it is left on the stack.
      obtain ⟨outer, ys, hAll, hOuter, hLeft⟩ := collapse_madeOf op.precedence hStack he
      refine .on (madeOf_push hGoal hOuter (.rightOperand op place hLeft) ?_)
      rw [← hAll]
      simp
  | _ => exact adds_takeEnd hGoal hStack he

theorem adds_takeNumber (hStack : StackMadeOf stack zs) {dotted : Bool} {digits : String} {span : Span}
    (hRead : ∀ e, number dotted digits span = .ok e → (Node.expr e).MadeOf (xs ++ [x])) :
    Adds (gs ++ (zs ++ xs)) x (takeNumber goal stack dotted digits span) := by
  unfold takeNumber
  split
  · next e hOk => exact .on (.expression hGoal hStack (.operator (hRead e hOk)) (by simp))
  · exact .refused

theorem adds_takeOperand (hStack : StackMadeOf stack zs) (hx : x.token.Legible) :
    Adds (gs ++ (zs ++ [])) x (takeOperand goal stack x) := by
  obtain ⟨token, place⟩ := x
  have hNumeral (n : Numeral) : Adds (gs ++ (zs ++ [])) ⟨n.token, place⟩
      (takeOperand goal stack ⟨n.token, place⟩) := by
    rw [Numeral.takeOperand_token]
    exact adds_takeNumber hGoal hStack fun e hOk => .literal (Numeral.number_text.mp hOk)
  -- Numerals of both kinds are read alike; all other tokens are told apart below.
  by_cases hLiteral : ∃ n : Numeral, n.token = token
  · obtain ⟨n, rfl⟩ := hLiteral
    exact hNumeral n
  cases token with
  | int digits | float digits => exact absurd hx hLiteral
  | operator op =>
      cases op with
      | sub => exact .on (.expression hGoal hStack (.literal place) (by simp))
      | _ => exact .missed
  | leftParen => exact .on (madeOf_push hGoal hStack (.paren place) (by simp))
  | leftBrace => exact .on (madeOf_push hGoal hStack (.lowerBound place) (by simp))
  | identifier name =>
      simp only [takeOperand]
      split
      · next hMap =>
          exact .on (.expression hGoal hStack (.opening place .map) (by simp [hMap, Bulk.word]))
      split
      · next hReduce =>
          exact .on (.expression hGoal hStack (.opening place .reduce) (by simp [hReduce, Bulk.word]))
      · exact .on (.expression hGoal hStack (.operator (.ref name place)) (by simp))
  | _ => exact .missed

theorem adds_takeLiteral (hStack : StackMadeOf stack zs) (minus : Span) (hx : x.token.Legible) :
    Adds (gs ++ (zs ++ [⟨.operator .sub, minus⟩])) x (takeLiteral goal stack minus x) := by
  obtain ⟨token, place⟩ := x
  have hNumeral (n : Numeral) (hAdjacent : place.start = minus.stop) :
      Adds (gs ++ (zs ++ [⟨.operator .sub, minus⟩])) ⟨n.token, place⟩
        (takeLiteral goal stack minus ⟨n.token, place⟩) := by
    rw [Numeral.takeLiteral_token goal stack hAdjacent]
    refine adds_takeNumber hGoal hStack fun e hOk => ?_
    cases hSign : n.negative with
    | true => exact absurd hOk (Numeral.number_minus_text hSign)
    | false =>
        rw [Numeral.minus_text hSign] at hOk
        exact .negated (Numeral.number_text (n := n.negate).mp hOk)
  by_cases hAdjacent : place.start = minus.stop
  · by_cases hLiteral : ∃ n : Numeral, n.token = token
    · obtain ⟨n, rfl⟩ := hLiteral
      exact hNumeral n hAdjacent
    rw [takeLiteral, if_pos hAdjacent]
    cases token with
    | int digits | float digits => exact absurd hx hLiteral
    | _ => exact .missed
  · rw [takeLiteral, if_neg hAdjacent]
    exact .missed

theorem adds_takeParameter (hStack : StackMadeOf stack zs) {next : Binding → Want}
    (hNext : ∀ (param : Binding) (ps : List Lexeme), (Node.binding param).MadeOf ps →
      (next param).MadeOf (xs ++ ps)) :
    Adds (gs ++ (zs ++ xs)) x (takeParameter goal stack x next) := by
  obtain ⟨token, place⟩ := x
  cases token with
  | identifier name =>
      exact .on (.expression hGoal hStack (hNext _ _ (.binding name place)) (by simp))
  | _ => exact .missed

theorem adds_takeWanted (hStack : StackMadeOf stack zs) {want : Want} (hWant : want.MadeOf xs)
    (hx : x.token.Legible) :
    Adds (gs ++ (zs ++ xs)) x (takeWanted goal stack want x) := by
  cases hWant with
  | operand => exact adds_takeOperand hGoal hStack hx
  | literal minus => exact adds_takeLiteral hGoal hStack minus hx
  | operator he => exact adds_takeOperator hGoal hStack he
  | opening keyword bulk =>
      cases bulk with
      | map =>
          exact adds_expected _
            (madeOf_push hGoal hStack (.mapArgument keyword x.span) (by simp [Bulk.word]))
      | reduce =>
          exact adds_expected _
            (madeOf_push hGoal hStack (.reduceSequence keyword x.span) (by simp [Bulk.word]))
  | mapParameter keyword a b h =>
      exact adds_takeParameter hGoal hStack fun _ _ => .mapArrow (.mapParameter keyword a b h)
  | mapArrow h hParam =>
      exact adds_expected _
        (madeOf_push hGoal hStack (.mapBody _ x.span (.mapArrow h hParam)) (by simp))
  | accumulator keyword a b c hSequence hBase =>
      exact adds_takeParameter hGoal hStack fun _ _ =>
        .element (.accumulator keyword a b c hSequence hBase)
  | element h hAccumulator =>
      exact adds_takeParameter hGoal hStack fun _ _ => .reduceArrow (.element h hAccumulator)
  | reduceArrow h hElement =>
      exact adds_expected _
        (madeOf_push hGoal hStack (.reduceBody _ x.span (.reduceArrow h hElement)) (by simp))

end Expression

theorem adds_take (h : parser.MadeOf zs) (hx : x.token.Legible) : Adds zs x (parser.take x) := by
  cases h with
  | target keyword =>
      obtain ⟨token, place⟩ := x
      cases token with
      | identifier name => exact .on (.equals keyword (.binding name place))
      | _ => exact .missed
  | equals keyword hTarget =>
      exact adds_expected _
        (.expression (.assign keyword x.span hTarget) .nil .operand (by simp))
  | text keyword =>
      obtain ⟨token, place⟩ := x
      cases token with
      | text content => exact .last (.print content keyword place)
      | _ => exact .missed
  | expression hGoal hStack hWant hAll =>
      subst hAll
      exact adds_takeWanted hGoal hStack hWant hx

theorem adds_statement (hx : x.token ≠ .finish) : Adds [] x (statement.take x) := by
  obtain ⟨token, place⟩ := x
  cases token with
  | identifier name =>
      simp only [take, begin]
      split
      · next hVar => exact .on (hVar ▸ .target place)
      split
      · next hOut => exact .on (.expression (.out place) .nil .operand (by simp [hOut]))
      split
      · next hPrint => exact .on (hPrint ▸ .text place)
      · exact .refused
  | finish => exact absurd rfl hx
  | _ => exact .refused

/-- What the lexemes of an attempt make of its statement, if they do so from the second lexeme on. -/
theorem Adds.outcome {a : Attempt} {s : Statement} (h : Adds zs x (parser.take x))
    (ha : parser.attempt? (x :: xs) = some a) (hs : a.outcome = .statement s)
    (hMore : ∀ (next : Parser) (b : Attempt), next.MadeOf (zs ++ [x]) → next.attempt? xs = some b →
      b.outcome = .statement s → (Node.statement s).MadeOf (zs ++ [x] ++ b.taken)) :
    (Node.statement s).MadeOf (zs ++ a.taken) := by
  rw [attempt?] at ha
  generalize parser.take x = reaction at h ha
  cases h with
  | on hNext =>
      obtain ⟨b, hb, rfl⟩ := Option.map_eq_some_iff.mp ha
      simpa using hMore _ b hNext hb hs
  | last hMade =>
      cases ha
      cases hs
      exact hMade
  | before hMade =>
      cases ha
      cases hs
      simpa using hMade
  | refused =>
      cases ha
      cases hs
  | missed =>
      cases ha
      cases hs

theorem MadeOf.outcome {a : Attempt} {s : Statement} (h : parser.MadeOf zs)
    (hLegible : ∀ y ∈ xs, y.token.Legible) (ha : parser.attempt? xs = some a)
    (hs : a.outcome = .statement s) : (Node.statement s).MadeOf (zs ++ a.taken) := by
  induction xs generalizing parser zs a with
  | nil => cases ha
  | cons x xs ih =>
      obtain ⟨hx, hRest⟩ := List.forall_mem_cons.mp hLegible
      exact (adds_take h hx).outcome ha hs fun _ _ hNext hb hs => ih hNext hRest hb hs

/-- A statement that an attempt comes to is made of the lexemes that the attempt consumed. -/
theorem madeOf_taken {a : Attempt} {s : Statement} (hx : x.token ≠ .finish)
    (hLegible : ∀ y ∈ x :: xs, y.token.Legible) (ha : statement.attempt? (x :: xs) = some a)
    (hs : a.outcome = .statement s) : (Node.statement s).MadeOf a.taken :=
  (adds_statement hx).outcome ha hs fun _ _ hNext hb hs =>
    hNext.outcome (List.forall_mem_cons.mp hLegible).2 hb hs

end Parser

/-- The lexemes take up room and follow each other in the text. -/
structure InOrder (xs : List Lexeme) : Prop where
  room : ∀ x ∈ xs, x.span.start < x.span.stop
  order : xs.Pairwise fun x y => x.span.stop ≤ y.span.start

/-- The span reaches from the start of the first lexeme to the end of the last. -/
def Extent (xs : List Lexeme) (span : Span) : Prop :=
  xs.head?.map (·.span.start) = some span.start ∧ xs.getLast?.map (·.span.stop) = some span.stop

variable {xs ys all : List Lexeme} {a b span : Span}

namespace InOrder

theorem of_sublist (h : InOrder all) (hSublist : xs.Sublist all) : InOrder xs :=
  ⟨fun x hx => h.room x (hSublist.subset hx), h.order.sublist hSublist⟩

/-- Nothing begins before the first lexeme. -/
theorem head_le {first x : Lexeme} (h : InOrder (first :: xs)) (hx : x ∈ first :: xs) :
    first.span.start ≤ x.span.start := by
  rcases List.mem_cons.mp hx with rfl | hLater
  · exact le_refl _
  · have hAfter := (List.pairwise_cons.mp h.order).1 x hLater
    exact (h.room first List.mem_cons_self).le.trans hAfter

/-- Nothing ends after the last lexeme. -/
theorem le_last {last x : Lexeme} (h : InOrder (xs ++ [last])) (hx : x ∈ xs ++ [last]) :
    x.span.stop ≤ last.span.stop := by
  rcases List.mem_append.mp hx with hEarlier | hLast
  · have hBefore := (List.pairwise_append.mp h.order).2.2 x hEarlier last List.mem_cons_self
    exact hBefore.trans (h.room last (by simp)).le
  · rw [List.mem_singleton.mp hLast]

end InOrder

namespace Extent

theorem single (token : Token) (a : Span) : Extent [⟨token, a⟩] a := ⟨rfl, rfl⟩

theorem exists_first (h : Extent xs span) : ∃ first ∈ xs, span.start = first.span.start := by
  obtain ⟨first, hFirst, hStart⟩ := Option.map_eq_some_iff.mp h.1
  exact ⟨first, List.mem_of_head? hFirst, hStart.symm⟩

theorem exists_last (h : Extent xs span) : ∃ last ∈ xs, span.stop = last.span.stop := by
  obtain ⟨last, hLast, hStop⟩ := Option.map_eq_some_iff.mp h.2
  exact ⟨last, List.mem_of_getLast? hLast, hStop.symm⟩

/-- All the lexemes lie within their extent. -/
theorem holds (h : Extent xs span) (hOrder : InOrder xs) {x : Lexeme} (hx : x ∈ xs) :
    span.start ≤ x.span.start ∧ x.span.stop ≤ span.stop := by
  obtain ⟨first, hFirst, hStart⟩ := Option.map_eq_some_iff.mp h.1
  obtain ⟨last, hLast, hStop⟩ := Option.map_eq_some_iff.mp h.2
  rw [← hStart, ← hStop]
  constructor
  · obtain ⟨rest, rfl⟩ := List.head?_eq_some_iff.mp hFirst
    exact hOrder.head_le hx
  · obtain ⟨rest, rfl⟩ := List.getLast?_eq_some_iff.mp hLast
    exact hOrder.le_last hx

theorem start_lt_stop (h : Extent xs span) (hOrder : InOrder xs) : span.start < span.stop := by
  obtain ⟨first, hFirst, hStart⟩ := h.exists_first
  rw [hStart]
  exact (hOrder.room first hFirst).trans_le (h.holds hOrder hFirst).2

/-- The extent of some of the lexemes lies within that of all. -/
theorem within (h : Extent all span) (hOrder : InOrder all) (ha : Extent xs a)
    (hSublist : xs.Sublist all) : span.start ≤ a.start ∧ a.stop ≤ span.stop := by
  obtain ⟨first, hFirst, hStart⟩ := ha.exists_first
  obtain ⟨last, hLast, hStop⟩ := ha.exists_last
  rw [hStart, hStop]
  exact ⟨(h.holds hOrder (hSublist.subset hFirst)).1, (h.holds hOrder (hSublist.subset hLast)).2⟩

/-- The smallest span around what comes first and what comes last is the extent of all. -/
theorem cover (hOrder : InOrder all) (ha : Extent xs a) (hb : Extent ys b) (hFirst : xs <+: all)
    (hLast : ys <:+ all) : Extent all (a.cover b) := by
  obtain ⟨first, hHead, hStart⟩ := Option.map_eq_some_iff.mp ha.1
  obtain ⟨last, hEnd, hStop⟩ := Option.map_eq_some_iff.mp hb.2
  have hAll : Extent all ⟨a.start, b.stop⟩ := by
    obtain ⟨after, rfl⟩ := hFirst
    obtain ⟨before, hBefore⟩ := hLast
    constructor
    · simp [hHead, hStart]
    · rw [← hBefore]
      simp [hEnd, hStop]
  -- Neither span reaches beyond the other's end of the whole.
  have hRight := hAll.within hOrder hb hLast.sublist
  have hLeft := hAll.within hOrder ha hFirst.sublist
  rw [show a.cover b = ⟨a.start, b.stop⟩ from
    congrArg₂ Span.mk (min_eq_left hRight.1) (max_eq_right hLeft.2)]
  exact hAll

end Extent

namespace Node

variable {node child : Node} {nodes : List Node}

/-- The span of a node, put together from its parts, is the extent of its lexemes. -/
theorem MadeOf.extent (h : node.MadeOf xs) (hOrder : InOrder xs) : Extent xs node.span := by
  induction h with
  | binding | ref => exact .single _ _
  | literal hDenotes => cases hDenotes <;> exact .single _ _
  | @negated n e minus a hDenotes =>
      have hBoth : Extent [⟨.operator .sub, minus⟩, ⟨n.token, a⟩] (minus.cover a) :=
        .cover hOrder (.single _ _) (.single _ _) ⟨_, rfl⟩ (List.suffix_cons _ _)
      cases hDenotes <;> exact hBoth
  | print => exact .cover hOrder (.single _ _) (.single _ _) ⟨_, rfl⟩ (List.suffix_cons _ _)
  | paren | range | map | reduce =>
      exact .cover hOrder (.single _ _) (.single _ _) ⟨_, rfl⟩ (List.suffix_append _ _)
  | @joined op a left right xs ys _ _ ihLeft ihRight =>
      have hPrefix : xs <+: xs ++ ⟨.operator op, a⟩ :: ys := List.prefix_append _ _
      have hSuffix : ys <:+ xs ++ ⟨.operator op, a⟩ :: ys :=
        (List.suffix_cons _ _).trans (List.suffix_append _ _)
      exact .cover hOrder (ihLeft (hOrder.of_sublist hPrefix.sublist))
        (ihRight (hOrder.of_sublist hSuffix.sublist)) hPrefix hSuffix
  | @assign a b target value ts xs _ _ _ ih =>
      have hSuffix : xs <:+ ⟨.identifier "var", a⟩ :: ts ++ ⟨.assign, b⟩ :: xs :=
        (List.suffix_cons _ _).trans (List.suffix_append _ _)
      exact .cover hOrder (.single _ _) (ih (hOrder.of_sublist hSuffix.sublist)) ⟨_, rfl⟩ hSuffix
  | @out a value xs _ ih =>
      have hSuffix : xs <:+ ⟨.identifier "out", a⟩ :: xs := List.suffix_cons _ _
      exact .cover hOrder (.single _ _) (ih (hOrder.of_sublist hSuffix.sublist)) ⟨_, rfl⟩ hSuffix

/-- The nodes are made of some of the lexemes, in this order. -/
inductive Parts : List Node → List Lexeme → Prop where
  | nil (xs : List Lexeme) : Parts [] xs
  | cons (before : List Lexeme) {node : Node} {nodes : List Node} {xs rest all : List Lexeme}
      (h : node.MadeOf xs) (hRest : Parts nodes rest) (hAll : before ++ (xs ++ rest) = all) :
      Parts (node :: nodes) all

theorem MadeOf.children (h : node.MadeOf xs) : Parts node.children xs := by
  cases h with
  | binding | ref | print => exact .nil _
  | literal hDenotes | negated hDenotes => cases hDenotes <;> exact .nil _
  | joined op a hLeft hRight =>
      exact .cons [] hLeft (.cons [⟨.operator op, a⟩] hRight (.nil []) rfl) (by simp)
  | paren a b h => exact .cons [⟨.leftParen, a⟩] h (.nil [⟨.rightParen, b⟩]) rfl
  | range a b c hLower hUpper =>
      exact .cons [⟨.leftBrace, a⟩] hLower
        (.cons [⟨.comma, b⟩] hUpper (.nil [⟨.rightBrace, c⟩]) rfl) (by simp)
  | map a b c d e hArgument hParam hBody =>
      exact .cons [⟨.identifier "map", a⟩, ⟨.leftParen, b⟩] hArgument
        (.cons [⟨.comma, c⟩] hParam
          (.cons [⟨.arrow, d⟩] hBody (.nil [⟨.rightParen, e⟩]) rfl) rfl) (by simp)
  | reduce a b c d e f hSequence hBase hAccumulator hElement hBody =>
      exact .cons [⟨.identifier "reduce", a⟩, ⟨.leftParen, b⟩] hSequence
        (.cons [⟨.comma, c⟩] hBase
          (.cons [⟨.comma, d⟩] hAccumulator
            (.cons [] hElement
              (.cons [⟨.arrow, e⟩] hBody (.nil [⟨.rightParen, f⟩]) rfl) rfl) rfl) rfl) (by simp)
  | assign a b hTarget hValue =>
      exact .cons [⟨.identifier "var", a⟩] hTarget
        (.cons [⟨.assign, b⟩] hValue (.nil []) rfl) (by simp)
  | out a hValue => exact .cons [⟨.identifier "out", a⟩] hValue (.nil []) (by simp)

theorem Parts.exists_part (h : Parts nodes all) (hChild : child ∈ nodes) :
    ∃ xs, xs <:+: all ∧ child.MadeOf xs := by
  induction h with
  | nil => cases hChild
  | @cons before node nodes xs rest all hNode hRest hAll ih =>
      subst hAll
      rcases List.mem_cons.mp hChild with rfl | hLater
      · exact ⟨xs, ⟨before, rest, by simp⟩, hNode⟩
      · obtain ⟨ys, hys, hMade⟩ := ih hLater
        have hSuffix : rest <:+ before ++ (xs ++ rest) := ⟨before ++ xs, by simp⟩
        exact ⟨ys, hys.trans hSuffix.isInfix, hMade⟩

/-- The parts of a node do not overlap. -/
theorem Parts.pairwise (h : Parts nodes all) (hOrder : InOrder all) :
    nodes.Pairwise fun left right => left.span.stop ≤ right.span.start := by
  induction h with
  | nil => exact .nil
  | @cons before node nodes xs rest all hNode hRest hAll ih =>
      subst hAll
      have hLater : InOrder rest := hOrder.of_sublist (by simp)
      have hOwn : InOrder xs := hOrder.of_sublist (by simp)
      refine .cons (fun right hRight => ?_) (ih hLater)
      obtain ⟨ys, hys, hMade⟩ := hRest.exists_part hRight
      obtain ⟨last, hLast, hStop⟩ := (hNode.extent hOwn).exists_last
      obtain ⟨first, hFirst, hStart⟩ :=
        (hMade.extent (hLater.of_sublist hys.sublist)).exists_first
      rw [hStop, hStart]
      have hApart := (List.pairwise_append.mp (List.pairwise_append.mp hOrder.order).2.1).2.2
      exact hApart last hLast first (hys.subset hFirst)

/-- The node stands where its lexemes do: its span is their extent, takes up room and holds the spans of
its parts, which stand one after the other. -/
structure Placed (node : Node) (xs : List Lexeme) : Prop where
  madeOf : node.MadeOf xs
  extent : Extent xs node.span
  room : node.span.start < node.span.stop
  holds : ∀ child ∈ node.children,
    node.span.start ≤ child.span.start ∧ child.span.stop ≤ node.span.stop
  apart : node.children.Pairwise fun left right => left.span.stop ≤ right.span.start

theorem MadeOf.placed (h : node.MadeOf xs) (hOrder : InOrder xs) : node.Placed xs where
  madeOf := h
  extent := h.extent hOrder
  room := (h.extent hOrder).start_lt_stop hOrder
  holds := by
    intro child hChild
    obtain ⟨ys, hys, hPart⟩ := h.children.exists_part hChild
    have hExtent := hPart.extent (hOrder.of_sublist hys.sublist)
    exact (h.extent hOrder).within hOrder hExtent hys.sublist
  apart := h.children.pairwise hOrder

/-- Each node of a tree is made of lexemes that follow each other among those of the tree. -/
theorem Has.exists_part {root : Node} (h : root.Has node) (hRoot : root.MadeOf all) :
    ∃ xs, xs <:+: all ∧ node.MadeOf xs := by
  induction h with
  | refl => exact ⟨all, List.infix_rfl, hRoot⟩
  | tail _ hChild ih =>
      obtain ⟨ys, hys, hParent⟩ := ih
      obtain ⟨xs, hxs, hMade⟩ := hParent.children.exists_part hChild
      exact ⟨xs, hxs.trans hys, hMade⟩

end Node

/-- The significant lexemes before the end of a text are in order. -/
theorem significant_inOrder (source : String) : InOrder (significant (lex source)).dropLast := by
  obtain ⟨covered, gap, xs, -, hTiled, hLexemes⟩ := lex_tiled source
  have hSignificant : (significant (lex source)).dropLast = xs.filter fun x => !x.token.isComment := by
    rw [significant, hLexemes, List.filter_append]
    exact List.dropLast_concat
  have hOrder : InOrder xs := ⟨hTiled.start_lt_stop, hTiled.pairwise⟩
  rw [hSignificant]
  exact hOrder.of_sublist List.filter_sublist

/-- The lexemes that an attempt consumes are in order. -/
theorem taken_inOrder {source : String} {a : Attempt}
    (ha : a ∈ attempts (significant (lex source))) : InOrder a.taken := by
  obtain ⟨xs, last, hLexemes, hLast, hFinish⟩ := significant_lex source
  have hOrder := significant_inOrder source
  rw [hLexemes, List.dropLast_concat, ← (attempts_account hLast hFinish).2, ← hLexemes] at hOrder
  have hWhole := List.infix_of_mem_flatten (List.mem_map_of_mem (f := fun a => a.taken ++ a.skipped) ha)
  exact hOrder.of_sublist ((List.sublist_append_left _ _).trans hWhole.sublist)

/-- Every statement of a program is what one of the attempts came to, and it is made of the lexemes that
this attempt consumed. -/
theorem exists_madeOf_taken {source : String} {s : Statement} (hs : s ∈ statements (parse source)) :
    ∃ a ∈ attempts (significant (lex source)),
      a.outcome = .statement s ∧ (Node.statement s).MadeOf a.taken := by
  have hEvent : .statement s ∈ (parse source).filter fun event => !event.isLexical := by
    obtain ⟨event, hMem, hStatement⟩ := List.mem_filterMap.mp hs
    cases event with
    | report d => cases hStatement
    | statement other =>
        cases hStatement
        exact List.mem_filter.mpr ⟨hMem, rfl⟩
  rw [filter_parse] at hEvent
  obtain ⟨a, ha, hOutcome⟩ := List.mem_map.mp hEvent
  obtain ⟨y, ys, hSuffix, hy, hAttempt⟩ := exists_of_mem_attempts ha
  have hLegible : ∀ x ∈ y :: ys, x.token.Legible := by
    rw [← Parser.attempt?_split hAttempt]
    exact fun x hx => lex_legible source x (attempts_subset ha hx)
  exact ⟨a, ha, hOutcome, Parser.madeOf_taken hy hLegible hAttempt hOutcome⟩

/-- Spans cover exactly the lexemes of a node. Every statement of a program is made of the lexemes that
one attempt consumed, and each of its nodes of some of them that follow each other. The span of a node
reaches from the start of the first of its lexemes to the end of the last; so it takes up room and holds
the spans of the parts of the node, which do not overlap and stand in the order of the parts. -/
theorem spans_cover_lexemes (source : String) (s : Statement) (hs : s ∈ statements (parse source)) :
    ∃ a ∈ attempts (significant (lex source)), a.outcome = .statement s ∧
      (Node.statement s).Placed a.taken ∧
      ∀ node, (Node.statement s).Has node → ∃ xs, xs <:+: a.taken ∧ node.Placed xs := by
  obtain ⟨a, ha, hOutcome, hRoot⟩ := exists_madeOf_taken hs
  have hOrder := taken_inOrder ha
  refine ⟨a, ha, hOutcome, hRoot.placed hOrder, ?_⟩
  intro node hNode
  obtain ⟨xs, hxs, hMade⟩ := hNode.exists_part hRoot
  exact ⟨xs, hxs, hMade.placed (hOrder.of_sublist hxs.sublist)⟩

/-- A reduction on two lines, after a statement that was given up. -/
theorem spans_cover_lexemes_reduce :
    ∃ s ∈ statements (parse "var = out reduce(\x7b-2, 3\x7d, 0,\n  a b -> (a + b) * 2)"),
      s.span = ⟨⟨1, 7⟩, ⟨2, 22⟩⟩ ∧
      ∃ a ∈ attempts (significant (lex "var = out reduce(\x7b-2, 3\x7d, 0,\n  a b -> (a + b) * 2)")),
        a.outcome = .statement s ∧ Extent a.taken s.span := by
  have hSpans : (statements (parse "var = out reduce(\x7b-2, 3\x7d, 0,\n  a b -> (a + b) * 2)")).map
      Statement.span = [⟨⟨1, 7⟩, ⟨2, 22⟩⟩] := by
    decide +kernel
  obtain ⟨s, hs, hSpan⟩ := List.mem_map.mp (hSpans ▸ List.mem_singleton_self _)
  obtain ⟨a, ha, hOutcome, hPlaced, -⟩ := spans_cover_lexemes _ s hs
  exact ⟨s, hs, hSpan, a, ha, hOutcome, hPlaced.extent⟩

end Progression
