import Progression.Proofs.Grammar

/-! What a parser that has reported nothing has read. Every state of the parser stands for the
lexemes of an unfinished statement. A step adds its lexeme to them, or completes the statement and
begins the next one, or reports; so the statements handed over without a report are derivations of
the lexemes. -/

namespace Progression

/-- How tightly the operator binds that waits for the expression being read, if one does. -/
def pending? : List Frame → Option Nat
  | .rightOperand _ op :: _ => some op.precedence
  | _ => none

/-- The lexemes that lead up to the expression of a statement. -/
inductive Goal.Begun : Goal → List Lexeme → Prop where
  | assign {keyword place a b c : Span} {name : String} :
      Begun (.assign keyword ⟨name, place, none⟩)
        [⟨.identifier "var", a⟩, ⟨.identifier name, b⟩, ⟨.assign, c⟩]
  | out {keyword a : Span} : Begun (.out keyword) [⟨.identifier "out", a⟩]

/-- The lexemes since the last construct was entered or the last operator was read. -/
inductive Want.Begun : Want → List Lexeme → Prop where
  | operand : Begun .operand []
  | literal {minus : Span} : Begun (.literal minus) [⟨.operator .sub, minus⟩]
  | operator {e : Expr} {xs : List Lexeme} (h : e.bare.Derived xs)
      (hOperand : e.bare.precedence? = none) : Begun (.operator e) xs
  | openingMap {keyword a : Span} : Begun (.opening keyword .map) [⟨.identifier "map", a⟩]
  | openingReduce {keyword a : Span} :
      Begun (.opening keyword .reduce) [⟨.identifier "reduce", a⟩]
  | mapParameter {keyword a b c : Span} {argument : Expr} {xs : List Lexeme}
      (hArgument : argument.bare.Derived xs) :
      Begun (.mapParameter keyword argument)
        (⟨.identifier "map", a⟩ :: ⟨.leftParen, b⟩ :: xs ++ [⟨.comma, c⟩])
  | mapArrow {keyword place a : Span} {argument : Expr} {name : String} {xs : List Lexeme}
      (h : Begun (.mapParameter keyword argument) xs) :
      Begun (.mapArrow keyword argument ⟨name, place, none⟩) (xs ++ [⟨.identifier name, a⟩])
  | accumulator {keyword a b c d : Span} {sequence base : Expr} {xs ys : List Lexeme}
      (hSequence : sequence.bare.Derived xs) (hBase : base.bare.Derived ys) :
      Begun (.accumulator keyword sequence base)
        (⟨.identifier "reduce", a⟩ :: ⟨.leftParen, b⟩ :: xs ++ ⟨.comma, c⟩ :: ys ++ [⟨.comma, d⟩])
  | element {keyword place a : Span} {sequence base : Expr} {name : String} {xs : List Lexeme}
      (h : Begun (.accumulator keyword sequence base) xs) :
      Begun (.element keyword sequence base ⟨name, place, none⟩) (xs ++ [⟨.identifier name, a⟩])
  | reduceArrow {keyword place a : Span} {sequence base : Expr} {accumulator : Binding}
      {name : String} {xs : List Lexeme}
      (h : Begun (.element keyword sequence base accumulator) xs) :
      Begun (.reduceArrow keyword sequence base accumulator ⟨name, place, none⟩)
        (xs ++ [⟨.identifier name, a⟩])

/-- The lexemes of a construct up to the expression that it waits for. -/
inductive Frame.Begun : Frame → List Lexeme → Prop where
  | paren {opening a : Span} : Begun (.paren opening) [⟨.leftParen, a⟩]
  | lowerBound {opening a : Span} : Begun (.lowerBound opening) [⟨.leftBrace, a⟩]
  | upperBound {opening a b : Span} {lower : Expr} {xs : List Lexeme}
      (hLower : lower.bare.Derived xs) :
      Begun (.upperBound opening lower) (⟨.leftBrace, a⟩ :: xs ++ [⟨.comma, b⟩])
  | mapArgument {keyword a b : Span} :
      Begun (.mapArgument keyword) [⟨.identifier "map", a⟩, ⟨.leftParen, b⟩]
  | mapBody {keyword a : Span} {argument : Expr} {param : Binding} {xs : List Lexeme}
      (h : Want.Begun (.mapArrow keyword argument param) xs) :
      Begun (.mapBody keyword argument param) (xs ++ [⟨.arrow, a⟩])
  | reduceSequence {keyword a b : Span} :
      Begun (.reduceSequence keyword) [⟨.identifier "reduce", a⟩, ⟨.leftParen, b⟩]
  | reduceBase {keyword a b c : Span} {sequence : Expr} {xs : List Lexeme}
      (hSequence : sequence.bare.Derived xs) :
      Begun (.reduceBase keyword sequence)
        (⟨.identifier "reduce", a⟩ :: ⟨.leftParen, b⟩ :: xs ++ [⟨.comma, c⟩])
  | reduceBody {keyword a : Span} {sequence base : Expr} {accumulator element : Binding}
      {xs : List Lexeme}
      (h : Want.Begun (.reduceArrow keyword sequence base accumulator element) xs) :
      Begun (.reduceBody keyword sequence base accumulator element) (xs ++ [⟨.arrow, a⟩])

/-- The lexemes of all unfinished constructs and operations, the outermost first. Directly inside an
operation that waits there can only be one that binds tighter. -/
inductive Stacked : List Frame → List Lexeme → Prop where
  | nil : Stacked [] []
  | construct {frame : Frame} {stack : List Frame} {xs zs : List Lexeme}
      (hStack : Stacked stack zs) (hFrame : frame.Begun xs) : Stacked (frame :: stack) (zs ++ xs)
  | operation {left : Expr} {op : Operator} {stack : List Frame} {xs zs : List Lexeme} {a : Span}
      (hStack : Stacked stack zs) (hLeft : left.bare.Derived xs)
      (hLoose : ∀ p ∈ left.bare.precedence?, op.precedence ≤ p)
      (hOuter : ∀ q ∈ pending? stack, q < op.precedence) :
      Stacked (.rightOperand left op :: stack) (zs ++ (xs ++ [⟨.operator op, a⟩]))

/-- The lexemes of the statement at hand. -/
inductive Parser.Begun : Parser → List Lexeme → Prop where
  | statement : Begun .statement []
  | target {keyword a : Span} : Begun (.target keyword) [⟨.identifier "var", a⟩]
  | equals {keyword place a b : Span} {name : String} :
      Begun (.equals keyword ⟨name, place, none⟩) [⟨.identifier "var", a⟩, ⟨.identifier name, b⟩]
  | text {keyword a : Span} : Begun (.text keyword) [⟨.identifier "print", a⟩]
  | expression {goal : Goal} {stack : List Frame} {want : Want} {gs zs xs all : List Lexeme}
      (hGoal : goal.Begun gs) (hStack : Stacked stack zs) (hWant : want.Begun xs)
      (hAll : all = gs ++ (zs ++ xs)) : Begun (.expression goal stack want) all

@[simp] theorem reports_map_statement (program : List Statement) :
    reports (program.map Event.statement) = [] := by
  simp [reports, Event.report?]

@[simp] theorem statements_map_statement (program : List Statement) :
    statements (program.map Event.statement) = program := by
  rw [statements, List.filterMap_map]
  exact List.filterMap_some

namespace Parser

/-- What a lexeme can do to a statement of which the lexemes `zs` were read before. The end of the
text belongs to no statement. -/
inductive Takes (zs : List Lexeme) (x : Lexeme) : Reaction → Prop where
  | more {next : Parser} (hNext : next.Begun (zs ++ [x])) (hx : x.token ≠ .finish) :
      Takes zs x (.on next)
  | last {s : Statement} (h : s.bare.Derived (zs ++ [x])) (hx : x.token ≠ .finish) :
      Takes zs x (.last (.statement s))
  | before {s : Statement} (h : s.bare.Derived zs) : Takes zs x (.before (.statement s))
  | refused {d : Diagnostic} : Takes zs x (.last (.report d))
  | missed {d : Diagnostic} : Takes zs x (.before (.report d))

variable {zs : List Lexeme} {x : Lexeme}

theorem takes_expected {token : Token} (hToken : token ≠ .finish) (wanted : Wanted) {next : Parser}
    (hNext : next.Begun (zs ++ [⟨token, x.span⟩])) :
    Takes zs x (if x.token = token then .on next else fail wanted x) := by
  split
  · next hx =>
      subst hx
      exact .more hNext hToken
  · exact .missed

end Parser

theorem Goal.Begun.statement {goal : Goal} {gs xs : List Lexeme} {e : Expr} (hGoal : goal.Begun gs)
    (h : e.bare.Derived xs) : (goal.statement e).bare.Derived (gs ++ xs) := by
  cases hGoal with
  | assign => exact .assign h
  | out => exact .out h

namespace Parser

variable {goal : Goal} {stack : List Frame} {gs zs ys : List Lexeme} {e : Expr}

theorem takeEnd_takes (hGoal : goal.Begun gs) (hStack : Stacked stack zs)
    (he : e.bare.Derived ys)
    (hTighter : ∀ q ∈ pending? stack, ∀ p ∈ e.bare.precedence?, q < p) (x : Lexeme) :
    Takes (gs ++ (zs ++ ys)) x (takeEnd goal e stack x) := by
  induction hStack generalizing e ys with
  | nil => exact .before (hGoal.statement he)
  | @operation left op stack xs zs a hStack hLeft hLoose hOuter ih =>
      -- What was joined binds as tightly as `op`, which is tighter than whatever waits outside.
      have hJoined := ih (hLeft.joined he hLoose (hTighter _ rfl) a) fun q hq p hp => by
        cases hp
        exact hOuter q hq
      simpa [takeEnd] using hJoined
  | construct hStack hFrame ih =>
      cases hFrame with
      | @paren opening a =>
          exact takes_expected (by simp) _
            (.expression hGoal hStack (.operator (he.paren a x.span) rfl) (by simp))
      | @lowerBound opening a =>
          have hBound : (Frame.upperBound opening e).Begun
              (⟨.leftBrace, a⟩ :: ys ++ [⟨.comma, x.span⟩]) := .upperBound he
          exact takes_expected (by simp) _
            (.expression hGoal (.construct hStack hBound) .operand (by simp))
      | @upperBound opening a b lower xs hLower =>
          exact takes_expected (by simp) _
            (.expression hGoal hStack (.operator (hLower.range he a b x.span) rfl) (by simp))
      | @mapArgument keyword a b =>
          have hWant : (Want.mapParameter keyword e).Begun
              (⟨.identifier "map", a⟩ :: ⟨.leftParen, b⟩ :: ys ++ [⟨.comma, x.span⟩]) :=
            .mapParameter he
          exact takes_expected (by simp) _ (.expression hGoal hStack hWant (by simp))
      | @mapBody keyword a argument param xs h =>
          cases h with
          | @mapArrow _ _ b _ name _ h =>
              cases h with
              | @mapParameter _ c d e _ _ hArgument =>
                  have hMap := hArgument.map he name c d e b a x.span
                  exact takes_expected (by simp) _
                    (.expression hGoal hStack (.operator hMap rfl) (by simp))
      | @reduceSequence keyword a b =>
          have hFrame : (Frame.reduceBase keyword e).Begun
              (⟨.identifier "reduce", a⟩ :: ⟨.leftParen, b⟩ :: ys ++ [⟨.comma, x.span⟩]) :=
            .reduceBase he
          exact takes_expected (by simp) _
            (.expression hGoal (.construct hStack hFrame) .operand (by simp))
      | @reduceBase keyword a b c sequence xs hSequence =>
          have hWant : (Want.accumulator keyword sequence e).Begun
              (⟨.identifier "reduce", a⟩ :: ⟨.leftParen, b⟩ :: xs ++ ⟨.comma, c⟩ :: ys ++
                [⟨.comma, x.span⟩]) := .accumulator hSequence he
          exact takes_expected (by simp) _ (.expression hGoal hStack hWant (by simp))
      | @reduceBody keyword a sequence base accumulator element xs h =>
          cases h with
          | @reduceArrow _ _ b _ _ _ name _ h =>
              cases h with
              | @element _ _ c _ _ first _ h =>
                  cases h with
                  | @accumulator _ d e f g _ _ _ _ hSequence hBase =>
                      have hReduce := hSequence.reduce hBase he first name d e f g c b a x.span
                      exact takes_expected (by simp) _
                        (.expression hGoal hStack (.operator hReduce rfl) (by simp))

/-- Collapsing rearranges what was read into a left operand for the operator that comes next. -/
theorem collapse_stacked (least : Nat) (hStack : Stacked stack zs) (he : e.bare.Derived ys)
    (hTighter : ∀ q ∈ pending? stack, ∀ p ∈ e.bare.precedence?, q < p)
    (hLeast : ∀ p ∈ e.bare.precedence?, least ≤ p) :
    ∃ zs' ys', zs' ++ ys' = zs ++ ys ∧ Stacked (collapse least e stack).2 zs' ∧
      (collapse least e stack).1.bare.Derived ys' ∧
      (∀ p ∈ (collapse least e stack).1.bare.precedence?, least ≤ p) ∧
      ∀ q ∈ pending? (collapse least e stack).2, q < least := by
  induction hStack generalizing e ys with
  | nil => exact ⟨[], ys, rfl, .nil, he, hLeast, nofun⟩
  | @construct frame stack xs zs hStack hFrame ih =>
      refine ⟨zs ++ xs, ys, rfl, ?_⟩
      have hFrames := Stacked.construct hStack hFrame
      cases hFrame <;> exact ⟨hFrames, he, hLeast, nofun⟩
  | @operation left op stack xs zs a hStack hLeft hLoose hOuter ih =>
      rw [collapse]
      split
      · next hLe =>
          obtain ⟨zs', ys', hAll, hRest⟩ :=
            ih (hLeft.joined he hLoose (hTighter _ rfl) a)
              (fun q hq p hp => by cases hp; exact hOuter q hq)
              (fun p hp => by cases hp; exact hLe)
          exact ⟨zs', ys', by simpa using hAll, hRest⟩
      · next hLt =>
          refine ⟨_, ys, rfl, .operation hStack hLeft hLoose hOuter, he, hLeast, ?_⟩
          intro q hq
          cases hq
          omega

theorem takeOperator_takes (hGoal : goal.Begun gs) (hStack : Stacked stack zs)
    (he : e.bare.Derived ys) (hOperand : e.bare.precedence? = none) (x : Lexeme) :
    Takes (gs ++ (zs ++ ys)) x (takeOperator goal stack e x) := by
  have hTighter : ∀ q ∈ pending? stack, ∀ p ∈ e.bare.precedence?, q < p := by simp [hOperand]
  obtain ⟨token, place⟩ := x
  cases token with
  | operator op =>
      obtain ⟨zs', ys', hAll, hOuter, hLeft, hLoose, hBelow⟩ :=
        collapse_stacked op.precedence hStack he hTighter (by simp [hOperand])
      have hFrames := Stacked.operation (a := place) hOuter hLeft hLoose hBelow
      refine .more (.expression hGoal hFrames .operand ?_) nofun
      rw [← hAll]
      simp
  | _ => exact takeEnd_takes hGoal hStack he hTighter _

theorem takeNumber_takes {xs : List Lexeme} {x : Lexeme} {dotted : Bool} {digits : String}
    {span : Span} (hGoal : goal.Begun gs) (hStack : Stacked stack zs) (hx : x.token ≠ .finish)
    (hRead : ∀ e, number dotted digits span = .ok e →
      e.bare.Derived (xs ++ [x]) ∧ e.bare.precedence? = none) :
    Takes (gs ++ (zs ++ xs)) x (takeNumber goal stack dotted digits span) := by
  unfold takeNumber
  split
  · next e hOk =>
      obtain ⟨he, hOperand⟩ := hRead e hOk
      exact .more (.expression hGoal hStack (.operator he hOperand) (by simp)) hx
  · exact .refused

theorem takeOperand_numeral (hGoal : goal.Begun gs) (hStack : Stacked stack zs) (n : Numeral)
    (place : Span) :
    Takes (gs ++ (zs ++ [])) ⟨n.token, place⟩ (takeOperand goal stack ⟨n.token, place⟩) := by
  rw [Numeral.takeOperand_token]
  refine takeNumber_takes hGoal hStack n.token_ne_finish fun e hOk => ?_
  have hDenotes := (Numeral.number_text.mp hOk).bare
  exact ⟨⟨.literal hDenotes, hDenotes.admissible⟩, hDenotes.precedence?_eq⟩

theorem takeLiteral_numeral (hGoal : goal.Begun gs) (hStack : Stacked stack zs) (n : Numeral)
    {minus place : Span} (hAdjacent : place.start = minus.stop) :
    Takes (gs ++ (zs ++ [⟨.operator .sub, minus⟩])) ⟨n.token, place⟩
      (takeLiteral goal stack minus ⟨n.token, place⟩) := by
  rw [Numeral.takeLiteral_token goal stack hAdjacent]
  refine takeNumber_takes hGoal hStack n.token_ne_finish fun e hOk => ?_
  cases hSign : n.negative with
  | true => exact absurd hOk (Numeral.number_minus_text hSign)
  | false =>
      rw [Numeral.minus_text hSign] at hOk
      have hDenotes := (Numeral.number_text (n := n.negate).mp hOk).bare
      exact ⟨⟨.negated hSign hAdjacent hDenotes, hDenotes.admissible⟩, hDenotes.precedence?_eq⟩

theorem takeOperand_takes (hGoal : goal.Begun gs) (hStack : Stacked stack zs) {x : Lexeme}
    (hx : x.token.Legible) : Takes (gs ++ (zs ++ [])) x (takeOperand goal stack x) := by
  obtain ⟨token, place⟩ := x
  cases token with
  | int digits =>
      obtain ⟨n, hToken⟩ : ∃ n : Numeral, n.token = .int digits := hx
      rw [← hToken]
      exact takeOperand_numeral hGoal hStack n place
  | float digits =>
      obtain ⟨n, hToken⟩ : ∃ n : Numeral, n.token = .float digits := hx
      rw [← hToken]
      exact takeOperand_numeral hGoal hStack n place
  | operator op =>
      cases op with
      | sub => exact .more (.expression hGoal hStack .literal (by simp)) (by simp)
      | _ => exact .missed
  | leftParen =>
      have hFrame : (Frame.paren place).Begun [⟨.leftParen, place⟩] := .paren
      exact .more (.expression hGoal (.construct hStack hFrame) .operand (by simp)) (by simp)
  | leftBrace =>
      have hFrame : (Frame.lowerBound place).Begun [⟨.leftBrace, place⟩] := .lowerBound
      exact .more (.expression hGoal (.construct hStack hFrame) .operand (by simp)) (by simp)
  | identifier name =>
      simp only [takeOperand]
      split
      · next hMap =>
          have hWant : (Want.opening place .map).Begun [⟨.identifier name, place⟩] :=
            hMap ▸ .openingMap
          exact .more (.expression hGoal hStack hWant (by simp)) (by simp)
      split
      · next hReduce =>
          have hWant : (Want.opening place .reduce).Begun [⟨.identifier name, place⟩] :=
            hReduce ▸ .openingReduce
          exact .more (.expression hGoal hStack hWant (by simp)) (by simp)
      · next hMap hReduce =>
          have hRef : (Expr.ref .plain name none).Derived [⟨.identifier name, place⟩] :=
            ⟨.ref hMap hReduce, trivial⟩
          exact .more (.expression hGoal hStack (.operator hRef rfl) (by simp)) (by simp)
  | _ => exact .missed

theorem takeLiteral_takes (hGoal : goal.Begun gs) (hStack : Stacked stack zs) {minus : Span}
    {x : Lexeme} (hx : x.token.Legible) :
    Takes (gs ++ (zs ++ [⟨.operator .sub, minus⟩])) x (takeLiteral goal stack minus x) := by
  obtain ⟨token, place⟩ := x
  by_cases hAdjacent : place.start = minus.stop
  · cases token with
    | int digits =>
        obtain ⟨n, hToken⟩ : ∃ n : Numeral, n.token = .int digits := hx
        rw [← hToken]
        exact takeLiteral_numeral hGoal hStack n hAdjacent
    | float digits =>
        obtain ⟨n, hToken⟩ : ∃ n : Numeral, n.token = .float digits := hx
        rw [← hToken]
        exact takeLiteral_numeral hGoal hStack n hAdjacent
    | _ =>
        rw [takeLiteral, if_pos hAdjacent]
        exact .missed
  · rw [takeLiteral, if_neg hAdjacent]
    exact .missed

theorem takeParameter_takes {xs : List Lexeme} {next : Binding → Want} (hGoal : goal.Begun gs)
    (hStack : Stacked stack zs) (x : Lexeme)
    (hNext : ∀ name, (next ⟨name, x.span, none⟩).Begun (xs ++ [⟨.identifier name, x.span⟩])) :
    Takes (gs ++ (zs ++ xs)) x (takeParameter goal stack x next) := by
  obtain ⟨token, place⟩ := x
  cases token with
  | identifier name => exact .more (.expression hGoal hStack (hNext name) (by simp)) nofun
  | _ => exact .missed

theorem takeArrow_takes {xs : List Lexeme} {frame : Frame} (hGoal : goal.Begun gs)
    (hStack : Stacked stack zs) (x : Lexeme) (hFrame : frame.Begun (xs ++ [⟨.arrow, x.span⟩])) :
    Takes (gs ++ (zs ++ xs)) x (takeArrow goal stack x frame) :=
  takes_expected (by simp) _ (.expression hGoal (.construct hStack hFrame) .operand (by simp))

theorem takeOpening_takes {xs : List Lexeme} {keyword : Span} {bulk : Bulk}
    (hGoal : goal.Begun gs) (hStack : Stacked stack zs) (x : Lexeme)
    (hWant : (Want.opening keyword bulk).Begun xs) :
    Takes (gs ++ (zs ++ xs)) x (takeOpening goal stack x keyword bulk) := by
  cases hWant with
  | @openingMap _ a =>
      have hFrame : (Frame.mapArgument keyword).Begun
          [⟨.identifier "map", a⟩, ⟨.leftParen, x.span⟩] := .mapArgument
      exact takes_expected (by simp) _
        (.expression hGoal (.construct hStack hFrame) .operand (by simp))
  | @openingReduce _ a =>
      have hFrame : (Frame.reduceSequence keyword).Begun
          [⟨.identifier "reduce", a⟩, ⟨.leftParen, x.span⟩] := .reduceSequence
      exact takes_expected (by simp) _
        (.expression hGoal (.construct hStack hFrame) .operand (by simp))

theorem takeWanted_takes {want : Want} {xs : List Lexeme} (hGoal : goal.Begun gs)
    (hStack : Stacked stack zs) (hWant : want.Begun xs) {x : Lexeme} (hx : x.token.Legible) :
    Takes (gs ++ (zs ++ xs)) x (takeWanted goal stack want x) := by
  cases hWant with
  | operand => exact takeOperand_takes hGoal hStack hx
  | literal => exact takeLiteral_takes hGoal hStack hx
  | operator h hOperand => exact takeOperator_takes hGoal hStack h hOperand x
  | openingMap => exact takeOpening_takes hGoal hStack x .openingMap
  | openingReduce => exact takeOpening_takes hGoal hStack x .openingReduce
  | mapParameter h =>
      exact takeParameter_takes hGoal hStack x fun name => .mapArrow (.mapParameter h)
  | mapArrow h => exact takeArrow_takes hGoal hStack x (.mapBody (.mapArrow h))
  | accumulator hSequence hBase =>
      exact takeParameter_takes hGoal hStack x fun name => .element (.accumulator hSequence hBase)
  | element h => exact takeParameter_takes hGoal hStack x fun name => .reduceArrow (.element h)
  | reduceArrow h => exact takeArrow_takes hGoal hStack x (.reduceBody (.reduceArrow h))

/-- A lexeme that begins a statement without a report is its first. -/
theorem statement_begun {x : Lexeme} (hx : x.token ≠ .finish) :
    (∃ next, statement.take x = .on next ∧ next.Begun [x]) ∨
      ∃ d, statement.take x = .last (.report d) := by
  obtain ⟨token, place⟩ := x
  cases token with
  | identifier name =>
      simp only [take, begin]
      split
      · next hVar => exact .inl ⟨_, rfl, hVar ▸ .target⟩
      split
      · next hOut =>
          have hGoal : (Goal.out place).Begun [⟨.identifier name, place⟩] := hOut ▸ .out
          exact .inl ⟨_, rfl, .expression hGoal .nil .operand (by simp)⟩
      split
      · next hPrint => exact .inl ⟨_, rfl, hPrint ▸ .text⟩
      · exact .inr ⟨_, rfl⟩
  | finish => exact absurd rfl hx
  | _ => exact .inr ⟨_, rfl⟩

/-- Unless no statement is at hand, a lexeme is added to it, it is complete, or there is a report. -/
theorem take_takes {parser : Parser} (h : parser.Begun zs) {x : Lexeme} (hx : x.token.Legible) :
    (parser = statement ∧ zs = []) ∨ Takes zs x (parser.take x) := by
  cases h with
  | statement => exact .inl ⟨rfl, rfl⟩
  | @target keyword a =>
      obtain ⟨token, place⟩ := x
      cases token with
      | identifier name => exact .inr (.more .equals nofun)
      | _ => exact .inr .missed
  | @equals keyword place a b name =>
      have hGoal : (Goal.assign keyword ⟨name, place, none⟩).Begun
          [⟨.identifier "var", a⟩, ⟨.identifier name, b⟩, ⟨.assign, x.span⟩] := .assign
      exact .inr (takes_expected (by simp) _ (.expression hGoal .nil .operand (by simp)))
  | text =>
      obtain ⟨token, place⟩ := x
      cases token with
      | text content => exact .inr (.last .print nofun)
      | _ => exact .inr .missed
  | expression hGoal hStack hWant hAll =>
      subst hAll
      exact .inr (takeWanted_takes hGoal hStack hWant hx)

/-- The statements that a run hands over without a report are derivations of its lexemes. -/
theorem derivation_of_run {xs : List Lexeme} {last : Lexeme} (hLast : last.token = .finish)
    (hLegible : ∀ x ∈ xs, x.token.Legible) (hFinish : ∀ x ∈ xs, x.token ≠ .finish)
    {parser : Parser} (h : parser.Begun zs)
    (hReports : reports (transduce step parser (xs ++ [last])).1 = []) :
    Derivation ((statements (transduce step parser (xs ++ [last])).1).map Statement.bare)
      (zs ++ xs) := by
  induction xs generalizing parser zs with
  | nil =>
      have hFinished : statement.take last = .on statement := by simp [take, begin, hLast]
      have hFresh : (transduce step statement [last]).1 = [] := transduce_of_on hFinished []
      rw [List.nil_append] at hReports ⊢
      rcases take_takes h (x := last) (by rw [hLast]; trivial) with ⟨rfl, rfl⟩ | hTakes
      · rw [hFresh]
        exact .nil
      generalize hTake : parser.take last = reaction at hTakes
      cases hTakes with
      | more _ hx => exact absurd hLast hx
      | last _ hx => exact absurd hLast hx
      | before hs =>
          rw [transduce_of_before hTake, Event.resume, hFresh, List.append_nil]
          have hDerivation := Derivation.cons hs .nil
          rwa [List.append_nil] at hDerivation
      | refused =>
          rw [transduce_of_last hTake] at hReports
          cases hReports
      | missed =>
          rw [transduce_of_before hTake] at hReports
          cases hReports
  | cons x xs ih =>
      have hRest {zs : List Lexeme} {parser : Parser} (h : parser.Begun zs) :=
        ih (fun y hy => hLegible y (by simp [hy])) (fun y hy => hFinish y (by simp [hy])) h
      rw [List.cons_append] at hReports ⊢
      -- A statement that is over before `x` is followed by one that begins with `x`.
      have hFresh (hNone : reports (transduce step statement (x :: (xs ++ [last]))).1 = []) :
          Derivation ((statements (transduce step statement (x :: (xs ++ [last]))).1).map
            Statement.bare) (x :: xs) := by
        rcases statement_begun (hFinish x (by simp)) with ⟨next, hTake, hNext⟩ | ⟨d, hTake⟩
        · rw [transduce_of_on hTake] at hNone ⊢
          exact hRest hNext hNone
        · rw [transduce_of_last hTake] at hNone
          cases hNone
      rcases take_takes h (hLegible x (by simp)) with ⟨rfl, rfl⟩ | hTakes
      · exact hFresh hReports
      generalize hTake : parser.take x = reaction at hTakes
      cases hTakes with
      | more hNext _ =>
          rw [transduce_of_on hTake] at hReports ⊢
          simpa using hRest hNext hReports
      | last hs _ =>
          rw [transduce_of_last hTake] at hReports ⊢
          have hDerivation := Derivation.cons hs (hRest .statement hReports)
          rwa [List.append_assoc] at hDerivation
      | before hs =>
          rw [transduce_of_before hTake] at hReports ⊢
          exact Derivation.cons hs (hFresh hReports)
      | refused =>
          rw [transduce_of_last hTake] at hReports
          cases hReports
      | missed =>
          rw [transduce_of_before hTake] at hReports
          cases hReports

end Parser

end Progression
