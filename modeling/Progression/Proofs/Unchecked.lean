import Progression.Proofs.Slots

/-! What the parser hands over has not been checked yet: all slots of its statements are empty. A
state of the parser holds parts of the statement at hand, in which nothing is filled in either. -/

namespace Progression

/-- The statement is not filled in anywhere before its expression. -/
def Goal.Blank : Goal → Prop
  | assign _ target => target.id = none
  | out _ => True

def Frame.Blank : Frame → Prop
  | rightOperand left _ => left.Blank
  | upperBound _ lower => lower.Blank
  | mapBody _ argument param => argument.Blank ∧ param.id = none
  | reduceBase _ sequence => sequence.Blank
  | reduceBody _ sequence base accumulator element =>
      sequence.Blank ∧ base.Blank ∧ accumulator.id = none ∧ element.id = none
  | paren _ | lowerBound _ | mapArgument _ | reduceSequence _ => True

def Want.Blank : Want → Prop
  | operator read => read.Blank
  | mapParameter _ argument => argument.Blank
  | mapArrow _ argument param => argument.Blank ∧ param.id = none
  | accumulator _ sequence base => sequence.Blank ∧ base.Blank
  | element _ sequence base first => sequence.Blank ∧ base.Blank ∧ first.id = none
  | reduceArrow _ sequence base first second =>
      sequence.Blank ∧ base.Blank ∧ first.id = none ∧ second.id = none
  | operand | literal _ | opening _ _ => True

namespace Parser

/-- Nothing that was read of the statement at hand is filled in. -/
def Blank : Parser → Prop
  | equals _ name => name.id = none
  | expression goal stack want => goal.Blank ∧ (∀ frame ∈ stack, frame.Blank) ∧ want.Blank
  | statement | recovery | target _ | text _ => True

end Parser

/-- What a lexeme leads to is not filled in anywhere. -/
def Reaction.Clean : Reaction → Prop
  | on next => next.Blank
  | last outcome | before outcome => ∀ s ∈ outcome.statement?, s.Blank

namespace Parser

theorem clean_report (d : Diagnostic) : ∀ s ∈ (Event.report d).statement?, s.Blank := by
  simp [Event.statement?]

theorem clean_begin (x : Lexeme) : (begin x).Clean := by
  unfold begin
  split
  · split
    · trivial
    split
    · exact ⟨trivial, by simp, trivial⟩
    split
    · trivial
    · exact clean_report _
  · trivial
  · exact clean_report _

theorem clean_recover (x : Lexeme) : (recover x).Clean := by
  unfold recover
  split
  · exact clean_begin x
  · trivial

/-- A reaction that goes on if the token is the one that is wanted. -/
theorem clean_expected {condition : Prop} [Decidable condition] (wanted : Wanted) (x : Lexeme)
    {next : Parser} (h : next.Blank) :
    Reaction.Clean (if condition then .on next else fail wanted x) := by
  split
  · exact h
  · exact clean_report _

theorem blank_number {dotted : Bool} {digits : String} {span : Span} {e : Expr}
    (h : number dotted digits span = .ok e) : e.Blank := by
  unfold number at h
  split at h
  · split at h
    · cases h
      rfl
    · cases h
  · split at h
    · cases h
      rfl
    · cases h

/-- Collapsing joins what is not filled in. -/
theorem blank_collapse (least : Nat) {stack : List Frame} {e : Expr}
    (hStack : ∀ frame ∈ stack, frame.Blank) (he : e.Blank) :
    (collapse least e stack).1.Blank ∧ ∀ frame ∈ (collapse least e stack).2, frame.Blank := by
  induction stack generalizing e with
  | nil => exact ⟨he, hStack⟩
  | cons frame stack ih =>
      obtain ⟨hFrame, hRest⟩ := List.forall_mem_cons.mp hStack
      cases frame with
      | rightOperand left op =>
          rw [collapse]
          split
          · exact ih hRest ⟨rfl, hFrame, he⟩
          · exact ⟨he, hStack⟩
      | _ => exact ⟨he, hStack⟩

section Expression

variable {goal : Goal} {stack : List Frame} {e : Expr} (hGoal : goal.Blank)
  (hStack : ∀ frame ∈ stack, frame.Blank)

include hGoal hStack

theorem clean_takeNumber (dotted : Bool) (digits : String) (span : Span) :
    (takeNumber goal stack dotted digits span).Clean := by
  unfold takeNumber
  split
  · next e hNumber => exact ⟨hGoal, hStack, blank_number hNumber⟩
  · exact clean_report _

theorem clean_takeOperand (x : Lexeme) : (takeOperand goal stack x).Clean := by
  unfold takeOperand
  split
  · exact clean_takeNumber hGoal hStack _ _ _
  · exact clean_takeNumber hGoal hStack _ _ _
  · exact ⟨hGoal, hStack, trivial⟩
  · exact ⟨hGoal, List.forall_mem_cons.mpr ⟨trivial, hStack⟩, trivial⟩
  · exact ⟨hGoal, List.forall_mem_cons.mpr ⟨trivial, hStack⟩, trivial⟩
  · split
    · exact ⟨hGoal, hStack, trivial⟩
    split
    · exact ⟨hGoal, hStack, trivial⟩
    · exact ⟨hGoal, hStack, rfl, rfl⟩
  · exact clean_report _

theorem clean_takeLiteral (minus : Span) (x : Lexeme) : (takeLiteral goal stack minus x).Clean := by
  unfold takeLiteral
  dsimp only
  split
  · split
    · exact clean_takeNumber hGoal hStack _ _ _
    · exact clean_takeNumber hGoal hStack _ _ _
    · exact clean_report _
  · exact clean_report _

theorem clean_takeEnd (he : e.Blank) (x : Lexeme) : (takeEnd goal e stack x).Clean := by
  induction stack generalizing e with
  | nil =>
      rintro _ ⟨⟩
      cases goal with
      | assign keyword target => exact ⟨hGoal, he⟩
      | out keyword => exact he
  | cons frame stack ih =>
      obtain ⟨hFrame, hRest⟩ := List.forall_mem_cons.mp hStack
      cases frame with
      | rightOperand left op => exact ih hRest ⟨rfl, hFrame, he⟩
      | paren opening => exact clean_expected _ x ⟨hGoal, hRest, rfl, he⟩
      | lowerBound opening =>
          exact clean_expected _ x ⟨hGoal, List.forall_mem_cons.mpr ⟨he, hRest⟩, trivial⟩
      | upperBound opening lower => exact clean_expected _ x ⟨hGoal, hRest, rfl, hFrame, he⟩
      | mapArgument keyword => exact clean_expected _ x ⟨hGoal, hRest, he⟩
      | mapBody keyword argument param =>
          obtain ⟨hArgument, hParam⟩ := hFrame
          exact clean_expected _ x ⟨hGoal, hRest, rfl, hArgument, hParam, he⟩
      | reduceSequence keyword =>
          exact clean_expected _ x ⟨hGoal, List.forall_mem_cons.mpr ⟨he, hRest⟩, trivial⟩
      | reduceBase keyword sequence => exact clean_expected _ x ⟨hGoal, hRest, hFrame, he⟩
      | reduceBody keyword sequence base accumulator element =>
          obtain ⟨hSequence, hBase, hAccumulator, hElement⟩ := hFrame
          exact clean_expected _ x
            ⟨hGoal, hRest, rfl, hSequence, hBase, hAccumulator, hElement, he⟩

theorem clean_takeOperator (he : e.Blank) (x : Lexeme) : (takeOperator goal stack e x).Clean := by
  unfold takeOperator
  split
  · next op _ =>
      obtain ⟨hLeft, hOuter⟩ := blank_collapse op.precedence hStack he
      exact ⟨hGoal, List.forall_mem_cons.mpr ⟨hLeft, hOuter⟩, trivial⟩
  · exact clean_takeEnd hGoal hStack he x

theorem clean_takeParameter (x : Lexeme) {next : Binding → Want}
    (h : ∀ param, param.id = none → (next param).Blank) :
    (takeParameter goal stack x next).Clean := by
  unfold takeParameter
  split
  · exact ⟨hGoal, hStack, h _ rfl⟩
  · exact clean_report _

theorem clean_takeArrow (x : Lexeme) {frame : Frame} (h : frame.Blank) :
    (takeArrow goal stack x frame).Clean :=
  clean_expected _ x ⟨hGoal, List.forall_mem_cons.mpr ⟨h, hStack⟩, trivial⟩

theorem clean_takeWanted {want : Want} (hWant : want.Blank) (x : Lexeme) :
    (takeWanted goal stack want x).Clean := by
  cases want with
  | operand => exact clean_takeOperand hGoal hStack x
  | literal minus => exact clean_takeLiteral hGoal hStack minus x
  | operator e => exact clean_takeOperator hGoal hStack hWant x
  | opening keyword bulk =>
      cases bulk <;>
        exact clean_expected _ x ⟨hGoal, List.forall_mem_cons.mpr ⟨trivial, hStack⟩, trivial⟩
  | mapParameter keyword argument =>
      exact clean_takeParameter hGoal hStack x fun _ hParam => ⟨hWant, hParam⟩
  | mapArrow keyword argument param => exact clean_takeArrow hGoal hStack x hWant
  | accumulator keyword sequence base =>
      exact clean_takeParameter hGoal hStack x fun _ hParam => ⟨hWant.1, hWant.2, hParam⟩
  | element keyword sequence base accumulator =>
      exact clean_takeParameter hGoal hStack x fun _ hParam =>
        ⟨hWant.1, hWant.2.1, hWant.2.2, hParam⟩
  | reduceArrow keyword sequence base accumulator element =>
      exact clean_takeArrow hGoal hStack x hWant

end Expression

theorem clean_take {parser : Parser} (h : parser.Blank) (x : Lexeme) : (parser.take x).Clean := by
  cases parser with
  | statement => exact clean_begin x
  | recovery => exact clean_recover x
  | target keyword =>
      rw [take]
      split
      · rfl
      · exact clean_report _
  | equals keyword name => exact clean_expected _ x ⟨h, by simp, trivial⟩
  | text keyword =>
      rw [take]
      split
      · rintro _ ⟨⟩
        trivial
      · exact clean_report _
  | expression goal stack want => exact clean_takeWanted h.1 h.2.1 h.2.2 x

theorem blank_resume (outcome : Event) : outcome.resume.Blank := by
  cases outcome <;> trivial

theorem clean_settle {reaction : Reaction} (h : reaction.Clean) :
    (∀ s ∈ statements reaction.settle.1, s.Blank) ∧ reaction.settle.2.Blank := by
  cases reaction with
  | on next => exact ⟨by simp [Reaction.settle, statements], h⟩
  | last outcome | before outcome =>
      refine ⟨fun s hs => ?_, blank_resume outcome⟩
      obtain ⟨event, hEvent, hStatement⟩ := List.mem_filterMap.mp hs
      cases List.mem_singleton.mp hEvent
      exact h s hStatement

theorem clean_step {parser : Parser} (h : parser.Blank) (x : Lexeme) :
    (∀ s ∈ statements (parser.step x).1, s.Blank) ∧ (parser.step x).2.Blank := by
  have hTake := clean_take h x
  rw [step]
  cases hReaction : parser.take x with
  | on next | last outcome => exact clean_settle (hReaction ▸ hTake)
  | before outcome =>
      obtain ⟨hHanded, hNext⟩ := clean_settle (clean_take (blank_resume outcome) x)
      obtain ⟨hOutcome, -⟩ := clean_settle (hReaction ▸ hTake)
      have hBoth : outcome :: (outcome.resume.take x).settle.1 =
          [outcome] ++ (outcome.resume.take x).settle.1 := rfl
      dsimp only
      rw [hBoth, statements_append]
      exact ⟨List.forall_mem_append.mpr ⟨hOutcome, hHanded⟩, hNext⟩

theorem clean_feed {parser : Parser} (h : parser.Blank) (item : Lexed) :
    (∀ s ∈ statements (parser.feed item).1, s.Blank) ∧ (parser.feed item).2.Blank := by
  cases item with
  | report d => exact ⟨by simp [feed, statements, Event.statement?], h⟩
  | lexeme x =>
      rw [feed]
      split
      · exact ⟨by simp [statements], h⟩
      · exact clean_step h x

end Parser

/-- Nothing is filled in before a statement is checked. -/
theorem blank_of_parse (source : String) : ∀ s ∈ statements (parse source), s.Blank := by
  have hStep (events : List Event) (parser : Parser) (item : Lexed)
      (h : (∀ s ∈ statements events, s.Blank) ∧ parser.Blank) :
      (∀ s ∈ statements (events ++ (parser.feed item).1), s.Blank) ∧
        (parser.feed item).2.Blank := by
    obtain ⟨hHanded, hNext⟩ := Parser.clean_feed h.2 item
    constructor
    · rw [statements_append]
      exact List.forall_mem_append.mpr ⟨h.1, hHanded⟩
    · exact hNext
  have hFirst : (∀ s ∈ statements [], s.Blank) ∧ Parser.first.Blank :=
    ⟨by simp [statements], trivial⟩
  exact (transduce_history _ hStep (lex source) hFirst).1

end Progression
