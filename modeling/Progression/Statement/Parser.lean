import Progression.Decimal.Nearest
import Progression.Integer
import Progression.Statement.Event
import Progression.Token.Lexer

/-! From lexemes to statements. The parser takes one lexeme at a time. What has been read of the
statement at hand is a stack of unfinished constructs and what is wanted next; a lexeme that is not
wanted is reported once, and the rest of the statement is skipped up to the next word that can begin
one. Operators group by precedence: a pending operator takes the operand to its right unless a
tighter one follows. -/

namespace Progression

/-- The two operators that apply a lambda to a sequence. -/
inductive Bulk where
  | map
  | reduce
deriving DecidableEq

/-- A statement that ends with an expression, before that expression. -/
inductive Goal where
  | assign (keyword : Span) (target : Binding)
  | out (keyword : Span)

/-- The statement that the expression completes. -/
def Goal.statement : Goal → Expr → Statement
  | assign keyword target, value => .assign (keyword.cover value.span) target value
  | out keyword, value => .out (keyword.cover value.span) value

/-- A construct that waits for the expression being read. -/
inductive Frame where
  | rightOperand (left : Expr) (op : Operator)
  | paren (opening : Span)
  | lowerBound (opening : Span)
  | upperBound (opening : Span) (lower : Expr)
  | mapArgument (keyword : Span)
  | mapBody (keyword : Span) (argument : Expr) (param : Binding)
  | reduceSequence (keyword : Span)
  | reduceBase (keyword : Span) (sequence : Expr)
  | reduceBody (keyword : Span) (sequence base : Expr) (accumulator element : Binding)

/-- What is wanted inside an expression. After an expression this is an operator or whatever the
innermost construct wants. -/
inductive Want where
  | operand
  | literal (minus : Span)
  | operator (read : Expr)
  | opening (keyword : Span) (bulk : Bulk)
  | mapParameter (keyword : Span) (argument : Expr)
  | mapArrow (keyword : Span) (argument : Expr) (param : Binding)
  | accumulator (keyword : Span) (sequence base : Expr)
  | element (keyword : Span) (sequence base : Expr) (accumulator : Binding)
  | reduceArrow (keyword : Span) (sequence base : Expr) (accumulator element : Binding)

/-- A parser in the middle of a program. -/
inductive Parser where
  | statement
  | recovery
  | target (keyword : Span)
  | equals (keyword : Span) (target : Binding)
  | text (keyword : Span)
  | expression (goal : Goal) (stack : List Frame) (want : Want)

/-- What a lexeme does to a parser. It is taken, and reading goes on from there or has come to an
outcome. Or the outcome comes before it, and the lexeme is still to be taken. -/
inductive Reaction where
  | on (next : Parser)
  | last (outcome : Event)
  | before (outcome : Event)

/-- How a parser goes on after an outcome. -/
def Event.resume : Event → Parser
  | statement _ => .statement
  | report _ => .recovery

/-- What is written, and how the parser goes on after it. -/
def Reaction.settle : Reaction → List Event × Parser
  | on next => ([], next)
  | last outcome | before outcome => ([outcome], outcome.resume)

namespace Parser

/-- The parser before the first lexeme of a program. -/
def first : Parser := .statement

/-- The report that `wanted` was not found at `x`, with the insertion that supplies it. -/
def missing (wanted : Wanted) (x : Lexeme) : Diagnostic :=
  ⟨.parse (.expected wanted x.token.spelling), x.span,
    wanted.insertion?.map fun insertion => ⟨x.span.start, insertion⟩⟩

/-- Takes the first lexeme of a statement, whatever it is. -/
def begin (x : Lexeme) : Reaction :=
  match x.token with
  | .identifier name =>
      if name = "var" then .on (target x.span)
      else if name = "out" then .on (expression (.out x.span) [] .operand)
      else if name = "print" then .on (text x.span)
      else .last (.report (missing .statement x))
  | .finish => .on statement
  | _ => .last (.report (missing .statement x))

/-- Takes a lexeme after a failed statement. It is skipped unless it can begin a statement. -/
def recover (x : Lexeme) : Reaction :=
  if x.token.startsStatement then begin x else .on recovery

/-- Gives the statement up because `wanted` was not found at `x`, which is not taken. -/
def fail (wanted : Wanted) (x : Lexeme) : Reaction := .before (.report (missing wanted x))

/-- The expression of a number literal, or what is wrong with it. -/
def number (dotted : Bool) (digits : String) (span : Span) : Except Diagnostic Expr :=
  if dotted then
    match Decimal.float? digits.toList with
    | some value => .ok (.float ⟨span, none⟩ value)
    | none => .error ⟨.parse (.expected .expression digits), span, none⟩
  else
    match (Decimal.integer? digits.toList).bind Integer.fit? with
    | some value => .ok (.int ⟨span, none⟩ value)
    | none => .error ⟨.parse (.literalTooLarge digits), span, none⟩

/-- Takes a number literal as an operand, also if it cannot be read; `digits` and `span` include a
minus sign that was taken before. -/
def takeNumber (goal : Goal) (stack : List Frame) (dotted : Bool) (digits : String) (span : Span) :
    Reaction :=
  match number dotted digits span with
  | .ok e => .on (expression goal stack (.operator e))
  | .error d => .last (.report d)

/-- Takes a lexeme where an operand is wanted. -/
def takeOperand (goal : Goal) (stack : List Frame) (x : Lexeme) : Reaction :=
  match x.token with
  | .int digits => takeNumber goal stack false digits x.span
  | .float digits => takeNumber goal stack true digits x.span
  | .operator .sub => .on (expression goal stack (.literal x.span))
  | .leftParen => .on (expression goal (.paren x.span :: stack) .operand)
  | .leftBrace => .on (expression goal (.lowerBound x.span :: stack) .operand)
  | .identifier name =>
      if name = "map" then .on (expression goal stack (.opening x.span .map))
      else if name = "reduce" then .on (expression goal stack (.opening x.span .reduce))
      else .on (expression goal stack (.operator (.ref ⟨x.span, none⟩ name none)))
  | _ => fail .expression x

/-- Takes the lexeme after a minus sign in the place of an operand. Only a number literal directly
after the sign makes an operand with it. -/
def takeLiteral (goal : Goal) (stack : List Frame) (minus : Span) (x : Lexeme) : Reaction :=
  let rejected := .before (.report ⟨.parse (.expected .expression "-"), minus, none⟩)
  if x.span.start = minus.stop then
    match x.token with
    | .int digits => takeNumber goal stack false ("-" ++ digits) (minus.cover x.span)
    | .float digits => takeNumber goal stack true ("-" ++ digits) (minus.cover x.span)
    | _ => rejected
  else rejected

/-- Completes the pending operators that bind at least as tightly as `least`, innermost first. -/
def collapse (least : Nat) (e : Expr) : List Frame → Expr × List Frame
  | .rightOperand left op :: stack =>
      if least ≤ op.precedence then collapse least (.joined op left e) stack
      else (e, .rightOperand left op :: stack)
  | stack => (e, stack)

/-- Takes the lexeme that ends the expression `e`. Pending operators are completed, and the lexeme
goes to the construct that waits for the whole expression. Without such a construct the statement
was complete before it. -/
def takeEnd (goal : Goal) (e : Expr) (stack : List Frame) (x : Lexeme) : Reaction :=
  match stack with
  | [] => .before (.statement (goal.statement e))
  | .rightOperand left op :: stack => takeEnd goal (.joined op left e) stack x
  | .paren opening :: stack =>
      if x.token = .rightParen then
        .on (expression goal stack (.operator (.paren ⟨opening.cover x.span, none⟩ e)))
      else fail .rightParen x
  | .lowerBound opening :: stack =>
      if x.token = .comma then .on (expression goal (.upperBound opening e :: stack) .operand)
      else fail .boundComma x
  | .upperBound opening lower :: stack =>
      if x.token = .rightBrace then
        .on (expression goal stack (.operator (.range ⟨opening.cover x.span, none⟩ lower e)))
      else fail .rightBrace x
  | .mapArgument keyword :: stack =>
      if x.token = .comma then .on (expression goal stack (.mapParameter keyword e))
      else fail .mapComma x
  | .mapBody keyword argument param :: stack =>
      if x.token = .rightParen then
        .on (expression goal stack
          (.operator (.map ⟨keyword.cover x.span, none⟩ argument param e)))
      else fail .rightParen x
  | .reduceSequence keyword :: stack =>
      if x.token = .comma then .on (expression goal (.reduceBase keyword e :: stack) .operand)
      else fail .baseComma x
  | .reduceBase keyword sequence :: stack =>
      if x.token = .comma then .on (expression goal stack (.accumulator keyword sequence e))
      else fail .lambdaComma x
  | .reduceBody keyword sequence base accumulator element :: stack =>
      if x.token = .rightParen then
        .on (expression goal stack
          (.operator (.reduce ⟨keyword.cover x.span, none⟩ sequence base accumulator element e)))
      else fail .rightParen x

/-- Takes the lexeme after the expression `e`. -/
def takeOperator (goal : Goal) (stack : List Frame) (e : Expr) (x : Lexeme) : Reaction :=
  match x.token with
  | .operator op =>
      let (left, outer) := collapse op.precedence e stack
      .on (expression goal (.rightOperand left op :: outer) .operand)
  | _ => takeEnd goal e stack x

/-- Takes a name that a lambda introduces; `next` is what is wanted after it. -/
def takeParameter (goal : Goal) (stack : List Frame) (x : Lexeme) (next : Binding → Want) :
    Reaction :=
  match x.token with
  | .identifier name => .on (expression goal stack (next ⟨name, x.span, none⟩))
  | _ => fail .parameter x

/-- Takes the arrow of a lambda, whose body completes `frame`. -/
def takeArrow (goal : Goal) (stack : List Frame) (x : Lexeme) (frame : Frame) : Reaction :=
  if x.token = .arrow then .on (expression goal (frame :: stack) .operand) else fail .arrow x

/-- Takes the parenthesis after the name of a bulk operator. -/
def takeOpening (goal : Goal) (stack : List Frame) (x : Lexeme) (keyword : Span) (bulk : Bulk) :
    Reaction :=
  if x.token = .leftParen then
    match bulk with
    | .map => .on (expression goal (.mapArgument keyword :: stack) .operand)
    | .reduce => .on (expression goal (.reduceSequence keyword :: stack) .operand)
  else fail .leftParen x

/-- Takes a lexeme inside an expression. -/
def takeWanted (goal : Goal) (stack : List Frame) (want : Want) (x : Lexeme) : Reaction :=
  match want with
  | .operand => takeOperand goal stack x
  | .literal minus => takeLiteral goal stack minus x
  | .operator e => takeOperator goal stack e x
  | .opening keyword bulk => takeOpening goal stack x keyword bulk
  | .mapParameter keyword argument =>
      takeParameter goal stack x fun param => .mapArrow keyword argument param
  | .mapArrow keyword argument param => takeArrow goal stack x (.mapBody keyword argument param)
  | .accumulator keyword sequence base =>
      takeParameter goal stack x fun accumulator => .element keyword sequence base accumulator
  | .element keyword sequence base accumulator =>
      takeParameter goal stack x fun element =>
        .reduceArrow keyword sequence base accumulator element
  | .reduceArrow keyword sequence base accumulator element =>
      takeArrow goal stack x (.reduceBody keyword sequence base accumulator element)

/-- What a lexeme that is no comment does to the parser. The end of the text is the last one. -/
def take (parser : Parser) (x : Lexeme) : Reaction :=
  match parser with
  | statement => begin x
  | recovery => recover x
  | target keyword =>
      match x.token with
      | .identifier name => .on (equals keyword ⟨name, x.span, none⟩)
      | _ => fail .target x
  | equals keyword name =>
      if x.token = .assign then .on (expression (.assign keyword name) [] .operand)
      else fail .assign x
  | text keyword =>
      match x.token with
      | .text content => .last (.statement (.print (keyword.cover x.span) content))
      | _ => fail .text x
  | expression goal stack want => takeWanted goal stack want x

/-- Takes one lexeme that is no comment. If the statement at hand is over before it, the lexeme is
taken as the first one after it. -/
def step (parser : Parser) (x : Lexeme) : List Event × Parser :=
  match parser.take x with
  | .before outcome =>
      let (events, next) := (outcome.resume.take x).settle
      (outcome :: events, next)
  | reaction => reaction.settle

/-- Takes one item of a lexed text. Reports are passed on, comments are ignored. -/
def feed (parser : Parser) : Lexed → List Event × Parser
  | .report d => ([.report d], parser)
  | .lexeme x => if x.token.isComment then ([], parser) else parser.step x

/-- The reactions to the first lexeme after an outcome: it is taken in any case. -/
theorem take_resume (outcome : Event) (x : Lexeme) :
    (∃ next, outcome.resume.take x = .on next) ∨ ∃ other, outcome.resume.take x = .last other := by
  have hBegin : (∃ next, begin x = .on next) ∨ ∃ other, begin x = .last other := by
    unfold begin
    repeat' split
    all_goals simp
  cases outcome with
  | statement s => exact hBegin
  | report d =>
      simp only [Event.resume, take, recover]
      split
      · exact hBegin
      · exact .inl ⟨recovery, rfl⟩

section Step

variable {parser next : Parser} {x : Lexeme} {outcome : Event}

theorem step_of_on (h : parser.take x = .on next) : parser.step x = ([], next) := by
  rw [step, h]
  rfl

theorem step_of_last (h : parser.take x = .last outcome) :
    parser.step x = ([outcome], outcome.resume) := by
  rw [step, h]
  rfl

/-- A lexeme that is not taken is read afresh after the outcome. -/
theorem step_of_before (h : parser.take x = .before outcome) :
    parser.step x = (outcome :: (outcome.resume.step x).1, (outcome.resume.step x).2) := by
  simp only [step, h]
  rcases take_resume outcome x with ⟨next, hNext⟩ | ⟨other, hOther⟩
  · rw [hNext]
  · rw [hOther]

/-- What a run writes from a lexeme on that is taken. -/
theorem transduce_of_on (h : parser.take x = .on next) (xs : List Lexeme) :
    (transduce step parser (x :: xs)).1 = (transduce step next xs).1 := by
  rw [transduce_cons, step_of_on h]
  rfl

theorem transduce_of_last (h : parser.take x = .last outcome) (xs : List Lexeme) :
    (transduce step parser (x :: xs)).1 = outcome :: (transduce step outcome.resume xs).1 := by
  rw [transduce_cons, step_of_last h]
  rfl

theorem transduce_of_before (h : parser.take x = .before outcome) (xs : List Lexeme) :
    (transduce step parser (x :: xs)).1 =
      outcome :: (transduce step outcome.resume (x :: xs)).1 := by
  rw [transduce_cons, step_of_before h, transduce_cons]
  rfl

end Step

end Parser

/-- The statements of a program text, and the reports about its characters and tokens. -/
def parse (source : String) : List Event := (transduce Parser.feed Parser.first (lex source)).1

end Progression
