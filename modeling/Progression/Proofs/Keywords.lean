import Progression.Proofs.Tiling
import Progression.Statement.Parser

/-! What one lexeme can do to a parser. The statement at hand goes on, is complete, or is given up
with a report; the end of the text belongs to no statement. All that is kept of a statement starts at
one of its lexemes, so a statement that is handed over begins where its first word begins. -/

namespace Progression

/-- The word that begins the statement. -/
def Goal.keyword : Goal → Span
  | assign keyword _ => keyword
  | out keyword => keyword

variable (P : Location → Prop)

/-- What was read of the construct starts where `P` holds. -/
def Frame.Starts : Frame → Prop
  | rightOperand left _ => P left.span.start
  | paren opening | lowerBound opening | upperBound opening _ => P opening.start
  | mapArgument keyword | mapBody keyword _ _ | reduceSequence keyword | reduceBase keyword _
  | reduceBody keyword _ _ _ _ => P keyword.start

def Want.Starts : Want → Prop
  | operand => True
  | literal minus => P minus.start
  | operator read => P read.span.start
  | opening keyword _ | mapParameter keyword _ | mapArrow keyword _ _ | accumulator keyword _ _
  | element keyword _ _ _ | reduceArrow keyword _ _ _ _ => P keyword.start

namespace Parser

/-- There is a statement at hand that began with `keyword`, and all that was read of it since then
starts where `P` holds. -/
def Within (keyword : Span) : Parser → Prop
  | statement | recovery => False
  | target word | equals word _ | text word => word = keyword
  | expression goal stack want =>
      goal.keyword = keyword ∧ (∀ frame ∈ stack, frame.Starts P) ∧ want.Starts P

/-- What can come of the statement that began with `keyword`: it spans from there to something that
starts where `P` holds, or there is a report about tokens. -/
def Concludes (keyword : Span) : Event → Prop
  | .statement s => ∃ start, P start ∧ s.span.start = min keyword.start start
  | .report d => d.stage = .parse

/-- All that can become of a lexeme that begins a statement. -/
inductive Begins (x : Lexeme) : Reaction → Prop where
  | finish (hx : x.token = .finish) : Begins x (.on statement)
  | keyword {next : Parser} (hx : x.token.startsStatement = true)
      (h : ∀ P, next.Within P x.span) : Begins x (.on next)
  | refused (hx : x.token.startsStatement = false) (hFinish : x.token ≠ .finish) :
      Begins x (.last (.report (missing .statement x)))

/-- All that a lexeme can do to the statement at hand: it belongs to it, it is the last one of it, or
the statement was over before it. -/
inductive Moves (keyword : Span) (x : Lexeme) : Reaction → Prop where
  | on {next : Parser} (hx : x.token ≠ .finish) (h : next.Within P keyword) :
      Moves keyword x (.on next)
  | last {outcome : Event} (hx : x.token ≠ .finish) (h : Concludes P keyword outcome) :
      Moves keyword x (.last outcome)
  | before {outcome : Event} (h : Concludes P keyword outcome) : Moves keyword x (.before outcome)

theorem begins_begin (x : Lexeme) : Begins x (begin x) := by
  obtain ⟨token, span⟩ := x
  cases token with
  | identifier name =>
      simp only [begin]
      split
      · next hVar => exact .keyword (by simp [Token.startsStatement, hVar]) fun P => rfl
      split
      · next hOut =>
          exact .keyword (by simp [Token.startsStatement, hOut]) fun P => ⟨rfl, by simp, trivial⟩
      split
      · next hPrint => exact .keyword (by simp [Token.startsStatement, hPrint]) fun P => rfl
      · next hVar hOut hPrint =>
          exact .refused (by simp [Token.startsStatement, hVar, hOut, hPrint]) (by simp)
  | finish => exact .finish rfl
  | _ => exact .refused rfl (by simp)

theorem begins_statement (x : Lexeme) : Begins x (statement.take x) := begins_begin x

/-- After a failed statement a lexeme begins the next one or is skipped. -/
theorem begins_recovery (x : Lexeme) :
    Begins x (recovery.take x) ∨ recovery.take x = .on recovery := by
  rw [take, recover]
  split
  · exact .inl (begins_begin x)
  · exact .inr rfl

variable {P} {keyword : Span} {x : Lexeme}

theorem moves_fail (wanted : Wanted) : Moves P keyword x (fail wanted x) := .before rfl

/-- A token is found or missed. -/
theorem moves_expected {token : Token} (hToken : token ≠ .finish) (wanted : Wanted) {next : Parser}
    (h : next.Within P keyword) :
    Moves P keyword x (if x.token = token then .on next else fail wanted x) := by
  split
  · next hx => exact .on (hx ▸ hToken) h
  · exact moves_fail wanted

section Expression

variable {goal : Goal} {stack : List Frame} {e : Expr} (hGoal : goal.keyword = keyword)
  (hStack : ∀ frame ∈ stack, frame.Starts P)

include hGoal hStack

theorem within_push {frame : Frame} {want : Want} (hFrame : frame.Starts P)
    (hWant : want.Starts P) : (expression goal (frame :: stack) want).Within P keyword :=
  ⟨hGoal, List.forall_mem_cons.mpr ⟨hFrame, hStack⟩, hWant⟩

theorem takeNumber_moves {span : Span} (hx : x.token ≠ .finish) (hSpan : P span.start)
    (dotted : Bool) (digits : String) :
    Moves P keyword x (takeNumber goal stack dotted digits span) := by
  rw [takeNumber, number]
  cases dotted with
  | true =>
      cases Decimal.float? digits.toList with
      | some value => exact .on hx ⟨hGoal, hStack, hSpan⟩
      | none => exact .last hx rfl
  | false =>
      cases (Decimal.integer? digits.toList).bind Integer.fit? with
      | some value => exact .on hx ⟨hGoal, hStack, hSpan⟩
      | none => exact .last hx rfl

theorem takeOperand_moves (hx : P x.span.start) :
    Moves P keyword x (takeOperand goal stack x) := by
  obtain ⟨token, span⟩ := x
  cases token with
  | int digits | float digits => exact takeNumber_moves hGoal hStack (by simp) hx _ _
  | operator op =>
      cases op with
      | sub => exact .on (by simp) ⟨hGoal, hStack, hx⟩
      | _ => exact moves_fail _
  | leftParen | leftBrace => exact .on (by simp) (within_push hGoal hStack hx trivial)
  | identifier name =>
      simp only [takeOperand]
      split
      · exact .on (by simp) ⟨hGoal, hStack, hx⟩
      split
      · exact .on (by simp) ⟨hGoal, hStack, hx⟩
      · exact .on (by simp) ⟨hGoal, hStack, hx⟩
  | _ => exact moves_fail _

theorem takeLiteral_moves {minus : Span} (hMinus : P minus.start) (hx : P x.span.start) :
    Moves P keyword x (takeLiteral goal stack minus x) := by
  have hBoth : P (minus.cover x.span).start := min_rec' P hMinus hx
  obtain ⟨token, span⟩ := x
  unfold takeLiteral
  split
  · cases token with
    | int digits | float digits => exact takeNumber_moves hGoal hStack (by simp) hBoth _ _
    | _ => exact .before rfl
  · exact .before rfl

theorem takeEnd_moves (he : P e.span.start) (hx : P x.span.start) :
    Moves P keyword x (takeEnd goal e stack x) := by
  induction stack generalizing e with
  | nil =>
      subst hGoal
      refine .before ⟨e.span.start, he, ?_⟩
      cases goal <;> rfl
  | cons frame stack ih =>
      obtain ⟨hFrame, hRest⟩ := List.forall_mem_cons.mp hStack
      cases frame with
      | rightOperand left op => exact ih hRest (min_rec' P hFrame he)
      | paren opening | upperBound opening lower | mapBody opening argument param
      | reduceBody opening sequence base accumulator element =>
          exact moves_expected (by simp) _ ⟨hGoal, hRest, min_rec' P hFrame hx⟩
      | lowerBound opening | reduceSequence opening =>
          exact moves_expected (by simp) _ (within_push hGoal hRest hFrame trivial)
      | mapArgument opening | reduceBase opening sequence =>
          exact moves_expected (by simp) _ ⟨hGoal, hRest, hFrame⟩

omit hGoal in
theorem collapse_starts (least : Nat) (he : P e.span.start) :
    P (collapse least e stack).1.span.start ∧
      ∀ frame ∈ (collapse least e stack).2, frame.Starts P := by
  induction stack generalizing e with
  | nil => exact ⟨he, hStack⟩
  | cons frame stack ih =>
      obtain ⟨hFrame, hRest⟩ := List.forall_mem_cons.mp hStack
      cases frame with
      | rightOperand left op =>
          rw [collapse]
          split
          · exact ih hRest (min_rec' P hFrame he)
          · exact ⟨he, hStack⟩
      | _ => exact ⟨he, hStack⟩

theorem takeOperator_moves (he : P e.span.start) (hx : P x.span.start) :
    Moves P keyword x (takeOperator goal stack e x) := by
  obtain ⟨token, span⟩ := x
  cases token with
  | operator op =>
      obtain ⟨hLeft, hOuter⟩ := collapse_starts hStack op.precedence he
      exact .on (by simp) (within_push hGoal hOuter hLeft trivial)
  | _ => exact takeEnd_moves hGoal hStack he hx

theorem takeParameter_moves {next : Binding → Want} (h : ∀ param, (next param).Starts P) :
    Moves P keyword x (takeParameter goal stack x next) := by
  obtain ⟨token, span⟩ := x
  cases token with
  | identifier name => exact .on (by simp) ⟨hGoal, hStack, h _⟩
  | _ => exact moves_fail _

theorem takeWanted_moves {want : Want} (hWant : want.Starts P) (hx : P x.span.start) :
    Moves P keyword x (takeWanted goal stack want x) := by
  cases want with
  | operand => exact takeOperand_moves hGoal hStack hx
  | literal minus => exact takeLiteral_moves hGoal hStack hWant hx
  | operator e => exact takeOperator_moves hGoal hStack hWant hx
  | opening word bulk =>
      cases bulk with
      | map => exact moves_expected (by simp) _ (within_push hGoal hStack hWant trivial)
      | reduce => exact moves_expected (by simp) _ (within_push hGoal hStack hWant trivial)
  | mapParameter word argument => exact takeParameter_moves hGoal hStack fun _ => hWant
  | mapArrow word argument param =>
      exact moves_expected (by simp) _ (within_push hGoal hStack hWant trivial)
  | accumulator word sequence base => exact takeParameter_moves hGoal hStack fun _ => hWant
  | element word sequence base first => exact takeParameter_moves hGoal hStack fun _ => hWant
  | reduceArrow word sequence base first second =>
      exact moves_expected (by simp) _ (within_push hGoal hStack hWant trivial)

end Expression

theorem take_moves {parser : Parser} (h : parser.Within P keyword) (hx : P x.span.start) :
    Moves P keyword x (parser.take x) := by
  cases parser with
  | statement | recovery => exact absurd h id
  | target word =>
      obtain ⟨token, span⟩ := x
      cases token with
      | identifier name => exact .on (by simp) h
      | _ => exact moves_fail _
  | equals word name => exact moves_expected (by simp) _ ⟨h, by simp, trivial⟩
  | text word =>
      subst h
      obtain ⟨token, span⟩ := x
      cases token with
      | text content => exact .last (by simp) ⟨span.start, hx, rfl⟩
      | _ => exact moves_fail _
  | expression goal stack want =>
      obtain ⟨hGoal, hStack, hWant⟩ := h
      exact takeWanted_moves hGoal hStack hWant hx

theorem within_or_idle (parser : Parser) :
    (∃ keyword, parser.Within (fun _ => True) keyword) ∨
      parser = statement ∨ parser = recovery := by
  have hFrame (frame : Frame) : frame.Starts fun _ => True := by cases frame <;> trivial
  have hWant (want : Want) : want.Starts fun _ => True := by cases want <;> trivial
  cases parser with
  | statement => exact .inr (.inl rfl)
  | recovery => exact .inr (.inr rfl)
  | target word => exact .inl ⟨word, rfl⟩
  | equals word name => exact .inl ⟨word, rfl⟩
  | text word => exact .inl ⟨word, rfl⟩
  | expression goal stack want =>
      exact .inl ⟨goal.keyword, rfl, fun frame _ => hFrame frame, hWant want⟩

/-- Whatever is reported is about tokens, and a statement is given up only with a report. -/
structure Explained (parser : Parser) (result : List Event × Parser) : Prop where
  stage : ∀ d ∈ reports result.1, d.stage = .parse
  given : result.2 = recovery → parser = recovery ∨ reports result.1 ≠ []

theorem Begins.explained {parser : Parser} (h : Begins x (parser.take x)) :
    Explained parser (parser.step x) := by
  generalize hTake : parser.take x = reaction at h
  cases h with
  | finish hx =>
      rw [step_of_on hTake]
      exact ⟨by simp [reports], nofun⟩
  | keyword hx hNext =>
      rw [step_of_on hTake]
      refine ⟨by simp [reports], ?_⟩
      rintro rfl
      exact absurd (hNext fun _ => True) id
  | refused hx hFinish =>
      rw [step_of_last hTake]
      constructor
      · simp [reports, Event.report?, missing, Diagnostic.stage, Cause.stage]
      · simp [reports, Event.report?]

theorem explained_recovery (x : Lexeme) : Explained recovery (recovery.step x) := by
  rcases begins_recovery x with hBegins | hSkipped
  · exact hBegins.explained
  · rw [step_of_on hSkipped]
    exact ⟨by simp [reports], fun _ => .inl rfl⟩

theorem explained_step (parser : Parser) (x : Lexeme) : Explained parser (parser.step x) := by
  rcases parser.within_or_idle with ⟨keyword, hWithin⟩ | rfl | rfl
  · have hMoves := take_moves hWithin (x := x) trivial
    generalize hTake : parser.take x = reaction at hMoves
    cases hMoves with
    | on hx hNext =>
        rw [step_of_on hTake]
        refine ⟨by simp [reports], ?_⟩
        rintro rfl
        exact absurd hNext id
    | @last outcome hx hEnds =>
        rw [step_of_last hTake]
        cases outcome with
        | statement s => exact ⟨by simp [reports, Event.report?], nofun⟩
        | report d =>
            have hStage : d.stage = .parse := hEnds
            exact ⟨by simp [reports, Event.report?, hStage], by simp [reports, Event.report?]⟩
    | @before outcome hEnds =>
        rw [step_of_before hTake]
        cases outcome with
        | statement s =>
            obtain ⟨hStage, hGiven⟩ := (begins_statement x).explained
            exact ⟨hStage, fun hNext => .inr ((hGiven hNext).resolve_left nofun)⟩
        | report d =>
            have hReports (events : List Event) :
                reports (.report d :: events) = d :: reports events := rfl
            constructor
            · rw [hReports]
              exact List.forall_mem_cons.mpr ⟨hEnds, (explained_recovery x).stage⟩
            · intro _
              rw [hReports]
              exact .inr (List.cons_ne_nil _ _)
  · exact (begins_statement x).explained
  · exact explained_recovery x

/-- The statement at hand, if there is one, began where `Q` holds, and none of the lexemes to come
starts before it. -/
def Awaits (Q : Location → Prop) (coming : List Lexeme) (parser : Parser) : Prop :=
  (∃ keyword, Q keyword.start ∧ parser.Within (keyword.start ≤ ·) keyword ∧
    ∀ x ∈ coming, keyword.start ≤ x.span.start) ∨ parser = statement ∨ parser = recovery

variable {Q : Location → Prop} {coming : List Lexeme}

/-- What a step without a statement at hand comes to: nothing is handed over, and what is awaited from
there began at the lexeme. -/
theorem Begins.awaits {parser : Parser} (h : Begins x (parser.take x))
    (hx : x.token.startsStatement = true → Q x.span.start)
    (hComing : ∀ y ∈ coming, x.span.start ≤ y.span.start) :
    statements (parser.step x).1 = [] ∧ (parser.step x).2.Awaits Q coming := by
  generalize hTake : parser.take x = reaction at h
  cases h with
  | finish _ =>
      rw [step_of_on hTake]
      exact ⟨rfl, .inr (.inl rfl)⟩
  | keyword hKeyword hNext =>
      rw [step_of_on hTake]
      exact ⟨rfl, .inl ⟨x.span, hx hKeyword, hNext _, hComing⟩⟩
  | refused _ _ =>
      rw [step_of_last hTake]
      exact ⟨rfl, .inr (.inr rfl)⟩

theorem recovery_awaits (hx : x.token.startsStatement = true → Q x.span.start)
    (hComing : ∀ y ∈ coming, x.span.start ≤ y.span.start) :
    statements (recovery.step x).1 = [] ∧ (recovery.step x).2.Awaits Q coming := by
  rcases begins_recovery x with hBegins | hSkipped
  · exact hBegins.awaits hx hComing
  · rw [step_of_on hSkipped]
    exact ⟨rfl, .inr (.inr rfl)⟩

theorem resume_awaits (outcome : Event) (hx : x.token.startsStatement = true → Q x.span.start)
    (hComing : ∀ y ∈ coming, x.span.start ≤ y.span.start) :
    statements (outcome.resume.step x).1 = [] ∧ (outcome.resume.step x).2.Awaits Q coming := by
  cases outcome with
  | statement s => exact (begins_statement x).awaits hx hComing
  | report d => exact recovery_awaits hx hComing

theorem awaits_resume (outcome : Event) : outcome.resume.Awaits Q coming := by
  cases outcome with
  | statement s => exact .inr (.inl rfl)
  | report d => exact .inr (.inr rfl)

/-- Of a statement nothing starts before its keyword, so it starts there. -/
theorem Concludes.start_eq {s : Statement}
    (h : Concludes (keyword.start ≤ ·) keyword (.statement s)) :
    s.span.start = keyword.start := by
  obtain ⟨start, hLe, hStart⟩ := h
  rw [hStart, min_eq_left hLe]

theorem Awaits.tail {parser : Parser} (h : parser.Awaits Q (x :: coming)) :
    parser.Awaits Q coming := by
  rcases h with ⟨keyword, hKeyword, hWithin, hLater⟩ | hIdle
  · exact .inl ⟨keyword, hKeyword, hWithin, (List.forall_mem_cons.mp hLater).2⟩
  · exact .inr hIdle

theorem step_awaits {parser : Parser} (h : parser.Awaits Q (x :: coming))
    (hx : x.token.startsStatement = true → Q x.span.start)
    (hComing : ∀ y ∈ coming, x.span.start ≤ y.span.start) :
    (∀ s ∈ statements (parser.step x).1, Q s.span.start) ∧ (parser.step x).2.Awaits Q coming := by
  rcases h with ⟨keyword, hKeyword, hWithin, hLater⟩ | rfl | rfl
  · obtain ⟨hLe, hLater⟩ := List.forall_mem_cons.mp hLater
    have hHanded {outcome : Event} (hEnds : Concludes (keyword.start ≤ ·) keyword outcome) :
        ∀ s ∈ statements [outcome], Q s.span.start := by
      cases outcome with
      | statement s => simpa [statements, Event.statement?, hEnds.start_eq] using hKeyword
      | report d => simp [statements, Event.statement?]
    have hMoves := take_moves hWithin hLe
    generalize hTake : parser.take x = reaction at hMoves
    cases hMoves with
    | on _ hNext =>
        rw [step_of_on hTake]
        exact ⟨by simp [statements], .inl ⟨keyword, hKeyword, hNext, hLater⟩⟩
    | @last outcome _ hEnds =>
        rw [step_of_last hTake]
        exact ⟨hHanded hEnds, awaits_resume outcome⟩
    | @before outcome hEnds =>
        obtain ⟨hNone, hNext⟩ := resume_awaits outcome hx hComing
        rw [step_of_before hTake, ← List.singleton_append, statements_append, hNone,
          List.append_nil]
        exact ⟨hHanded hEnds, hNext⟩
  · obtain ⟨hNone, hNext⟩ := (begins_statement x).awaits hx hComing
    exact ⟨by simp [hNone], hNext⟩
  · obtain ⟨hNone, hNext⟩ := recovery_awaits hx hComing
    exact ⟨by simp [hNone], hNext⟩

/-- The statements that a run hands over start at lexemes that begin one. -/
theorem transduce_starts (items : List Lexed)
    (hOrder : (lexemes items).Pairwise fun x y => x.span.start ≤ y.span.start)
    (hQ : ∀ x ∈ lexemes items, x.token.startsStatement = true → Q x.span.start)
    {parser : Parser} (h : parser.Awaits Q (lexemes items)) :
    ∀ s ∈ statements (transduce feed parser items).1, Q s.span.start := by
  induction items generalizing parser with
  | nil => simp [statements]
  | cons item items ih =>
      cases item with
      | report d => exact ih hOrder hQ h
      | lexeme x =>
          obtain ⟨hComing, hOrder⟩ := List.pairwise_cons.mp hOrder
          obtain ⟨hx, hQ⟩ := List.forall_mem_cons.mp hQ
          obtain ⟨hHanded, hNext⟩ := step_awaits h hx hComing
          rw [transduce_cons, statements_append, feed]
          split
          · exact ih hOrder hQ h.tail
          · exact List.forall_mem_append.mpr ⟨hHanded, ih hOrder hQ hNext⟩

end Parser

/-- A statement starts where one of the words stands that begin statements. -/
theorem statement_start (source : String) : ∀ s ∈ statements (parse source),
    ∃ x ∈ lexemes (lex source), x.token.startsStatement = true ∧ s.span.start = x.span.start := by
  have hOrder : (lexemes (lex source)).Pairwise fun x y => x.span.start ≤ y.span.start :=
    (lexemes_ordered source).imp fun h => h.2.le
  exact Parser.transduce_starts (Q := fun start => ∃ x ∈ lexemes (lex source),
      x.token.startsStatement = true ∧ start = x.span.start) (lex source) hOrder
    (fun x hMem hx => ⟨x, hMem, hx, rfl⟩) (.inr (.inl rfl))

/-- A statement starts inside the text. -/
theorem statement_inside (source : String) : ∀ s ∈ statements (parse source),
    Location.first ≤ s.span.start ∧
      s.span.start < (Place.first.after source.toList).location := by
  intro s hs
  obtain ⟨x, hMem, hWord, hStart⟩ := statement_start source s hs
  obtain ⟨covered, gap, xs, hText, hTiled, hLexemes⟩ := lex_tiled source
  have hInside : x ∈ xs := by
    rw [hLexemes, List.mem_append, List.mem_singleton] at hMem
    rcases hMem with hMem | rfl
    · exact hMem
    · simp [Token.startsStatement] at hWord
  have hStop := (hTiled.stop_le x hInside).trans (Place.location_le_after _ gap)
  rw [← Place.after_append, ← hText] at hStop
  rw [hStart]
  exact ⟨hTiled.le_start x hInside, (hTiled.start_lt_stop x hInside).trans_le hStop⟩

end Progression
