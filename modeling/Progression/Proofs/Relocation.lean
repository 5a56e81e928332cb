import Mathlib.Order.MinMax
import Progression.Proofs.Locations
import Progression.Statement.Parser

/-! Moving the locations of a program. The lexer takes over the locations that it is given, and the
parser compares them and does nothing else with them; so if all locations are moved in such a way
that their order stays, what is read is the same at the moved locations. -/

namespace Progression

section Definitions

variable (f : Location → Location)

def Span.relocate (span : Span) : Span := ⟨f span.start, f span.stop⟩

def Mark.relocate (mark : Mark) : Mark := { mark with span := mark.span.relocate f }

def Binding.relocate (binding : Binding) : Binding :=
  { binding with span := binding.span.relocate f }

/-- The expression with all its locations moved. -/
def Expr.relocate : Expr → Expr
  | int mark value => int (mark.relocate f) value
  | float mark value => float (mark.relocate f) value
  | ref mark name target => ref (mark.relocate f) name target
  | binary mark op left right => binary (mark.relocate f) op left.relocate right.relocate
  | paren mark inner => paren (mark.relocate f) inner.relocate
  | range mark lower upper => range (mark.relocate f) lower.relocate upper.relocate
  | map mark argument param body =>
      map (mark.relocate f) argument.relocate (param.relocate f) body.relocate
  | reduce mark sequence base accumulator element body =>
      reduce (mark.relocate f) sequence.relocate base.relocate (accumulator.relocate f)
        (element.relocate f) body.relocate

def Statement.relocate : Statement → Statement
  | assign span target value => assign (span.relocate f) (target.relocate f) (value.relocate f)
  | out span value => out (span.relocate f) (value.relocate f)
  | print span text => print (span.relocate f) text

def FixIt.relocate (fixIt : FixIt) : FixIt := { fixIt with location := f fixIt.location }

/-- The same finding at the moved locations. -/
def Diagnostic.relocate (d : Diagnostic) : Diagnostic :=
  { d with span := d.span.relocate f, fixIt := d.fixIt.map (FixIt.relocate f) }

def Event.relocate : Event → Event
  | report d => report (d.relocate f)
  | statement s => statement (s.relocate f)

def Lexeme.relocate (x : Lexeme) : Lexeme := { x with span := x.span.relocate f }

def Lexed.relocate : Lexed → Lexed
  | report d => report (d.relocate f)
  | lexeme x => lexeme (x.relocate f)

def Mode.relocate : Mode → Mode
  | between => between
  | minus start => minus (f start)
  | name start read => name (f start) read
  | number start read dotted => number (f start) read dotted
  | dots start => dots (f start)
  | text start read => text (f start) read
  | escape start read backslash => escape (f start) read (f backslash)
  | comment start read => comment (f start) read

def Goal.relocate : Goal → Goal
  | assign keyword target => assign (keyword.relocate f) (target.relocate f)
  | out keyword => out (keyword.relocate f)

def Frame.relocate : Frame → Frame
  | rightOperand left op => rightOperand (left.relocate f) op
  | paren opening => paren (opening.relocate f)
  | lowerBound opening => lowerBound (opening.relocate f)
  | upperBound opening lower => upperBound (opening.relocate f) (lower.relocate f)
  | mapArgument keyword => mapArgument (keyword.relocate f)
  | mapBody keyword argument param =>
      mapBody (keyword.relocate f) (argument.relocate f) (param.relocate f)
  | reduceSequence keyword => reduceSequence (keyword.relocate f)
  | reduceBase keyword sequence => reduceBase (keyword.relocate f) (sequence.relocate f)
  | reduceBody keyword sequence base accumulator element =>
      reduceBody (keyword.relocate f) (sequence.relocate f) (base.relocate f)
        (accumulator.relocate f) (element.relocate f)

def Want.relocate : Want → Want
  | operand => operand
  | literal minus => literal (minus.relocate f)
  | operator read => operator (read.relocate f)
  | opening keyword bulk => opening (keyword.relocate f) bulk
  | mapParameter keyword argument => mapParameter (keyword.relocate f) (argument.relocate f)
  | mapArrow keyword argument param =>
      mapArrow (keyword.relocate f) (argument.relocate f) (param.relocate f)
  | accumulator keyword sequence base =>
      accumulator (keyword.relocate f) (sequence.relocate f) (base.relocate f)
  | element keyword sequence base first =>
      element (keyword.relocate f) (sequence.relocate f) (base.relocate f) (first.relocate f)
  | reduceArrow keyword sequence base first second =>
      reduceArrow (keyword.relocate f) (sequence.relocate f) (base.relocate f) (first.relocate f)
        (second.relocate f)

def Parser.relocate : Parser → Parser
  | statement => statement
  | recovery => recovery
  | target keyword => target (keyword.relocate f)
  | equals keyword name => equals (keyword.relocate f) (name.relocate f)
  | text keyword => text (keyword.relocate f)
  | expression goal stack want =>
      expression (goal.relocate f) (stack.map (Frame.relocate f)) (want.relocate f)

def Reaction.relocate : Reaction → Reaction
  | on next => on (next.relocate f)
  | last outcome => last (outcome.relocate f)
  | before outcome => before (outcome.relocate f)

end Definitions

section Reading

variable {f : Location → Location}

namespace Mode

theorem close_relocate (mode : Mode) (stop : Location) :
    (mode.relocate f).close (f stop) = (mode.close stop).map (Lexed.relocate f) := by
  cases mode with
  | number start read dotted =>
      simp only [relocate, close, numberLexed]
      split
      · rfl
      split
      · rfl
      · rfl
  | _ => rfl

theorem extend?_relocate (mode : Mode) (flag : Bool) (here next : Location) (c : Char) :
    (mode.relocate f).extend? flag (f here) (f next) c =
      (mode.extend? flag here next c).map
        (Prod.map (List.map (Lexed.relocate f)) (Mode.relocate f)) := by
  cases mode with
  | between => rfl
  | _ =>
      simp only [relocate, extend?]
      repeat' split
      all_goals rfl

theorem begin_relocate (here next : Location) (c : Char) :
    begin (f here) (f next) c =
      Prod.map (List.map (Lexed.relocate f)) (Mode.relocate f) (begin here next c) := by
  unfold begin
  repeat' split
  all_goals rfl

end Mode

/-- Moving an item of a lexed text does not change what it is. -/
theorem Lexed.foldl_afterOperand_relocate (items : List Lexed) (flag : Bool) :
    (items.map (relocate f)).foldl afterOperand flag = items.foldl afterOperand flag := by
  rw [List.foldl_map]
  congr 1
  funext flag item
  cases item <;> rfl

theorem Span.relocate_cover (hf : Monotone f) (a b : Span) :
    (a.cover b).relocate f = (a.relocate f).cover (b.relocate f) := by
  simp only [cover, relocate, hf.map_min, hf.map_max]

@[simp] theorem Expr.span_relocate (e : Expr) : (e.relocate f).span = e.span.relocate f := by
  cases e <;> rfl

theorem Expr.relocate_joined (hf : Monotone f) (op : Operator) (left right : Expr) :
    (joined op left right).relocate f = joined op (left.relocate f) (right.relocate f) := by
  simp only [joined, relocate, Mark.relocate, Span.relocate_cover hf, span_relocate]

theorem Goal.statement_relocate (hf : Monotone f) (goal : Goal) (e : Expr) :
    (goal.statement e).relocate f = (goal.relocate f).statement (e.relocate f) := by
  cases goal <;>
    simp only [statement, relocate, Statement.relocate, Span.relocate_cover hf, Expr.span_relocate]

namespace Parser

theorem missing_relocate (wanted : Wanted) (x : Lexeme) :
    missing wanted (x.relocate f) = (missing wanted x).relocate f := by
  simp only [missing, Lexeme.relocate, Diagnostic.relocate, Option.map_map]
  rfl

theorem begin_relocate (x : Lexeme) : begin (x.relocate f) = (begin x).relocate f := by
  have hMissing : missing .statement (x.relocate f) = (missing .statement x).relocate f :=
    missing_relocate _ x
  simp only [begin, hMissing]
  cases hToken : x.token with
  | identifier name =>
      simp only [Lexeme.relocate, hToken]
      repeat' split
      all_goals rfl
  | _ =>
      simp only [Lexeme.relocate, hToken]
      rfl

theorem recover_relocate (x : Lexeme) : recover (x.relocate f) = (recover x).relocate f := by
  have hToken : (x.relocate f).token = x.token := rfl
  rw [recover, recover, begin_relocate, hToken]
  split
  · rfl
  · rfl

theorem fail_relocate (wanted : Wanted) (x : Lexeme) :
    fail wanted (x.relocate f) = (fail wanted x).relocate f := by
  rw [fail, missing_relocate]
  rfl

/-- A reaction that goes on if the token is the one that is wanted. -/
theorem expected_relocate {condition : Prop} [Decidable condition] (wanted : Wanted) (x : Lexeme)
    {next other : Parser} (h : other = next.relocate f) :
    (if condition then .on other else fail wanted (x.relocate f)) =
      Reaction.relocate f (if condition then .on next else fail wanted x) := by
  split
  · rw [h]
    rfl
  · exact fail_relocate wanted x

theorem number_relocate (dotted : Bool) (digits : String) (span : Span) :
    number dotted digits (span.relocate f) =
      match number dotted digits span with
      | .ok e => .ok (e.relocate f)
      | .error d => .error (d.relocate f) := by
  cases dotted with
  | true =>
      simp only [number, if_true]
      cases Decimal.float? digits.toList <;> rfl
  | false =>
      simp only [number, Bool.false_eq_true, if_false]
      cases (Decimal.integer? digits.toList).bind Integer.fit? <;> rfl

theorem takeNumber_relocate (goal : Goal) (stack : List Frame) (dotted : Bool) (digits : String)
    (span : Span) :
    takeNumber (goal.relocate f) (stack.map (Frame.relocate f)) dotted digits (span.relocate f) =
      (takeNumber goal stack dotted digits span).relocate f := by
  rw [takeNumber, takeNumber, number_relocate]
  cases number dotted digits span with
  | ok e => rfl
  | error d => rfl

theorem takeOperand_relocate (goal : Goal) (stack : List Frame) (x : Lexeme) :
    takeOperand (goal.relocate f) (stack.map (Frame.relocate f)) (x.relocate f) =
      (takeOperand goal stack x).relocate f := by
  obtain ⟨token, span⟩ := x
  cases token with
  | int digits | float digits => exact takeNumber_relocate goal stack _ digits span
  | operator op =>
      cases op with
      | sub => rfl
      | _ => exact fail_relocate _ _
  | leftParen | leftBrace => rfl
  | identifier name =>
      simp only [takeOperand, Lexeme.relocate]
      repeat' split
      all_goals rfl
  | _ => exact fail_relocate _ _

theorem takeLiteral_relocate (hf : StrictMono f) (goal : Goal) (stack : List Frame) (minus : Span)
    (x : Lexeme) :
    takeLiteral (goal.relocate f) (stack.map (Frame.relocate f)) (minus.relocate f)
      (x.relocate f) = (takeLiteral goal stack minus x).relocate f := by
  have hSame : (x.relocate f).span.start = (minus.relocate f).stop ↔ x.span.start = minus.stop :=
    hf.injective.eq_iff
  rw [takeLiteral, takeLiteral]
  by_cases hAdjacent : x.span.start = minus.stop
  · rw [if_pos hAdjacent, if_pos (hSame.mpr hAdjacent)]
    obtain ⟨token, span⟩ := x
    cases token with
    | int digits | float digits =>
        dsimp only [Lexeme.relocate]
        rw [← Span.relocate_cover hf.monotone]
        exact takeNumber_relocate goal stack _ _ _
    | _ => rfl
  · rw [if_neg hAdjacent, if_neg (hSame.not.mpr hAdjacent)]
    rfl

theorem collapse_relocate (hf : Monotone f) (least : Nat) (e : Expr) (stack : List Frame) :
    collapse least (e.relocate f) (stack.map (Frame.relocate f)) =
      Prod.map (Expr.relocate f) (List.map (Frame.relocate f)) (collapse least e stack) := by
  induction stack generalizing e with
  | nil => rfl
  | cons frame stack ih =>
      cases frame with
      | rightOperand left op =>
          simp only [List.map_cons, Frame.relocate, collapse]
          split
          · rw [← Expr.relocate_joined hf, ih]
          · rfl
      | _ => rfl

theorem takeEnd_relocate (hf : Monotone f) (goal : Goal) (e : Expr) (stack : List Frame)
    (x : Lexeme) :
    takeEnd (goal.relocate f) (e.relocate f) (stack.map (Frame.relocate f)) (x.relocate f) =
      (takeEnd goal e stack x).relocate f := by
  induction stack generalizing e with
  | nil =>
      simp only [List.map_nil, takeEnd, ← Goal.statement_relocate hf]
      rfl
  | cons frame stack ih =>
      cases frame with
      | rightOperand left op =>
          simp only [List.map_cons, Frame.relocate, takeEnd]
          rw [← Expr.relocate_joined hf, ih]
      | _ =>
          refine expected_relocate _ x ?_
          simp only [relocate, Want.relocate, Expr.relocate, Mark.relocate, Lexeme.relocate,
            Span.relocate_cover hf, List.map_cons, Frame.relocate]

theorem takeOperator_relocate (hf : Monotone f) (goal : Goal) (stack : List Frame) (e : Expr)
    (x : Lexeme) :
    takeOperator (goal.relocate f) (stack.map (Frame.relocate f)) (e.relocate f) (x.relocate f) =
      (takeOperator goal stack e x).relocate f := by
  obtain ⟨token, span⟩ := x
  cases token with
  | operator op =>
      simp only [takeOperator, Lexeme.relocate, collapse_relocate hf]
      rfl
  | _ => exact takeEnd_relocate hf goal e stack _

theorem takeParameter_relocate (goal : Goal) (stack : List Frame) (x : Lexeme)
    {next other : Binding → Want} (h : ∀ param, other (param.relocate f) = (next param).relocate f) :
    takeParameter (goal.relocate f) (stack.map (Frame.relocate f)) (x.relocate f) other =
      (takeParameter goal stack x next).relocate f := by
  obtain ⟨token, span⟩ := x
  cases token with
  | identifier name =>
      have hNext : other ⟨name, span.relocate f, none⟩ = _ := h ⟨name, span, none⟩
      simp only [takeParameter, Lexeme.relocate, hNext]
      rfl
  | _ => exact fail_relocate _ _

theorem takeArrow_relocate (goal : Goal) (stack : List Frame) (x : Lexeme) (frame : Frame) :
    takeArrow (goal.relocate f) (stack.map (Frame.relocate f)) (x.relocate f) (frame.relocate f) =
      (takeArrow goal stack x frame).relocate f :=
  expected_relocate _ x rfl

theorem takeOpening_relocate (goal : Goal) (stack : List Frame) (x : Lexeme) (keyword : Span)
    (bulk : Bulk) :
    takeOpening (goal.relocate f) (stack.map (Frame.relocate f)) (x.relocate f)
      (keyword.relocate f) bulk = (takeOpening goal stack x keyword bulk).relocate f := by
  cases bulk with
  | map => exact expected_relocate _ x rfl
  | reduce => exact expected_relocate _ x rfl

theorem takeWanted_relocate (hf : StrictMono f) (goal : Goal) (stack : List Frame) (want : Want)
    (x : Lexeme) :
    takeWanted (goal.relocate f) (stack.map (Frame.relocate f)) (want.relocate f) (x.relocate f) =
      (takeWanted goal stack want x).relocate f := by
  cases want with
  | operand => exact takeOperand_relocate goal stack x
  | literal minus => exact takeLiteral_relocate hf goal stack minus x
  | operator e => exact takeOperator_relocate hf.monotone goal stack e x
  | opening keyword bulk => exact takeOpening_relocate goal stack x keyword bulk
  | mapParameter keyword argument => exact takeParameter_relocate goal stack x fun _ => rfl
  | mapArrow keyword argument param =>
      exact takeArrow_relocate goal stack x (.mapBody keyword argument param)
  | accumulator keyword sequence base => exact takeParameter_relocate goal stack x fun _ => rfl
  | element keyword sequence base first => exact takeParameter_relocate goal stack x fun _ => rfl
  | reduceArrow keyword sequence base first second =>
      exact takeArrow_relocate goal stack x (.reduceBody keyword sequence base first second)

theorem take_relocate (hf : StrictMono f) (parser : Parser) (x : Lexeme) :
    (parser.relocate f).take (x.relocate f) = (parser.take x).relocate f := by
  cases parser with
  | statement => exact begin_relocate x
  | recovery => exact recover_relocate x
  | target keyword =>
      obtain ⟨token, span⟩ := x
      cases token with
      | identifier name => rfl
      | _ => exact fail_relocate _ _
  | equals keyword name => exact expected_relocate _ x rfl
  | text keyword =>
      obtain ⟨token, span⟩ := x
      cases token with
      | text content =>
          simp only [relocate, take, Lexeme.relocate, ← Span.relocate_cover hf.monotone]
          rfl
      | _ => exact fail_relocate _ _
  | expression goal stack want => exact takeWanted_relocate hf goal stack want x

/-- What a step comes to at the moved locations. -/
abbrev moved (f : Location → Location) : List Event × Parser → List Event × Parser :=
  Prod.map (List.map (Event.relocate f)) (Parser.relocate f)

theorem settle_relocate (reaction : Reaction) :
    (reaction.relocate f).settle = moved f reaction.settle := by
  cases reaction with
  | on next => rfl
  | last outcome | before outcome => cases outcome <;> rfl

theorem step_relocate (hf : StrictMono f) (parser : Parser) (x : Lexeme) :
    (parser.relocate f).step (x.relocate f) = moved f (parser.step x) := by
  rw [step, step, take_relocate hf]
  cases parser.take x with
  | on next => rfl
  | last outcome => exact settle_relocate (.last outcome)
  | before outcome =>
      have hResume : (outcome.relocate f).resume = outcome.resume.relocate f := by
        cases outcome <;> rfl
      have hBefore : (Reaction.before outcome).relocate f = .before (outcome.relocate f) := rfl
      simp only [hBefore, hResume, take_relocate hf, settle_relocate]
      rfl

theorem feed_relocate (hf : StrictMono f) (parser : Parser) (item : Lexed) :
    (parser.relocate f).feed (item.relocate f) = moved f (parser.feed item) := by
  cases item with
  | report d => rfl
  | lexeme x =>
      have hToken : (x.relocate f).token = x.token := rfl
      rw [Lexed.relocate, feed, feed, step_relocate hf, hToken]
      split
      · rfl
      · rfl

/-- A parser that is given the lexemes at the moved locations hands over the same at the moved
locations. -/
theorem transduce_relocate (hf : StrictMono f) (parser : Parser) (items : List Lexed) :
    transduce feed (parser.relocate f) (items.map (Lexed.relocate f)) =
      moved f (transduce feed parser items) := by
  induction items generalizing parser with
  | nil => rfl
  | cons item items ih =>
      rw [List.map_cons, transduce_cons, feed_relocate hf]
      simp only [moved, Prod.map, transduce_cons, List.map_append] at ih ⊢
      rw [ih]

end Parser

end Reading

end Progression
