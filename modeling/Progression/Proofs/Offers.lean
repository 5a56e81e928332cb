import Progression.Proofs.Parsing
import Progression.Proofs.Seams

/-! Tokens on offer. Where a parser misses a token that can be supplied, its report offers that token for
insertion. Every state of the parser that offers a token would have gone on with it. -/

namespace Progression

/-- The token that an insertion supplies. -/
def Wanted.supplied? : Wanted → Option Token
  | boundComma | mapComma | baseComma | lambdaComma => some .comma
  | arrow => some .arrow
  | leftParen => some .leftParen
  | rightParen => some .rightParen
  | rightBrace => some .rightBrace
  | _ => none

/-- The text that supplies a token. A comma is inserted with a space after it. -/
def Token.supply (token : Token) : String :=
  if token = .comma then token.spelling ++ " " else token.spelling

theorem Wanted.plain_supplied {wanted : Wanted} {token : Token}
    (h : wanted.supplied? = some token) : token.operator? = none ∧ token.isComment = false := by
  cases wanted <;> cases h <;> exact ⟨rfl, rfl⟩

/-- A token that can be supplied is written on one line. -/
theorem Wanted.after_supplied {wanted : Wanted} {token : Token}
    (h : wanted.supplied? = some token) (place : Place) :
    (place.after token.spelling.toList).location =
      ⟨place.location.line, place.location.column + token.spelling.length⟩ := by
  cases wanted <;> cases h <;> rfl

theorem Wanted.supply_line {wanted : Wanted} {token : Token} (h : wanted.supplied? = some token) :
    Opens token.supply.toList ∧ ∀ c ∈ token.supply.toList, Lexer.endsLine c = false := by
  cases wanted <;> cases h <;>
    exact ⟨⟨_, _, rfl, rfl⟩, by simp [Token.supply, Token.spelling, Lexer.endsLine]⟩

theorem Wanted.insertion?_eq (wanted : Wanted) :
    wanted.insertion? = wanted.supplied?.map Token.supply := by
  cases wanted <;> rfl

/-- No report carries an insertion. -/
def Parser.Plain (events : List Event) : Prop := ∀ d ∈ reports events, d.fixIt = none

/-- The outcome carries no insertion, if there is one. -/
def Reaction.Plain : Reaction → Prop
  | on _ => True
  | last outcome | before outcome => Parser.Plain [outcome]

namespace Parser

/-- Whatever is offered for insertion is a token that would have been taken, and the same is offered at
every other lexeme with the token that was found. -/
def Offers (take : Lexeme → Reaction) : Prop :=
  ∀ x, (take x).Plain ∨ ∃ wanted token, take x = fail wanted x ∧ wanted.supplied? = some token ∧
    (∀ y : Lexeme, y.token = token → ∃ next, take y = .on next) ∧
    ∀ y : Lexeme, y.token = x.token → take y = fail wanted y

theorem plain_nil : Plain [] := by simp [Plain, reports]

theorem plain_report {d : Diagnostic} (h : d.fixIt = none) : Plain [.report d] := by
  simpa [Plain, reports, Event.report?] using h

theorem plain_begin (x : Lexeme) : (begin x).Plain := by
  have hBegins := begins_begin x
  generalize begin x = reaction at hBegins
  cases hBegins with
  | finish | keyword => trivial
  | refused => exact plain_report rfl

theorem plain_recover (x : Lexeme) : (recover x).Plain := by
  unfold recover
  split
  · exact plain_begin x
  · trivial

/-- A missed token is offered, and it would have been taken. -/
theorem offers_expected {wanted : Wanted} {token : Token} (hToken : wanted.supplied? = some token)
    (next : Lexeme → Parser) :
    Offers fun x => if x.token = token then .on (next x) else fail wanted x := by
  intro x
  by_cases hx : x.token = token
  · exact .inl (by simp only [if_pos hx, Reaction.Plain])
  · refine .inr ⟨wanted, token, if_neg hx, hToken, fun y hy => ⟨next y, if_pos hy⟩, fun y hy => ?_⟩
    exact if_neg (hy ▸ hx)

theorem plain_takeNumber (goal : Goal) (stack : List Frame) (dotted : Bool) (digits : String)
    (span : Span) : (takeNumber goal stack dotted digits span).Plain := by
  rw [takeNumber, number]
  cases dotted with
  | true =>
      cases Decimal.float? digits.toList with
      | some value => trivial
      | none => exact plain_report rfl
  | false =>
      cases (Decimal.integer? digits.toList).bind Integer.fit? with
      | some value => trivial
      | none => exact plain_report rfl

theorem plain_takeOperand (goal : Goal) (stack : List Frame) (x : Lexeme) :
    (takeOperand goal stack x).Plain := by
  unfold takeOperand
  split
  · exact plain_takeNumber _ _ _ _ _
  · exact plain_takeNumber _ _ _ _ _
  · trivial
  · trivial
  · trivial
  · split
    · trivial
    split
    · trivial
    · trivial
  · exact plain_report rfl

theorem plain_takeLiteral (goal : Goal) (stack : List Frame) (minus : Span) (x : Lexeme) :
    (takeLiteral goal stack minus x).Plain := by
  unfold takeLiteral
  dsimp only
  split
  · split
    · exact plain_takeNumber _ _ _ _ _
    · exact plain_takeNumber _ _ _ _ _
    · exact plain_report rfl
  · exact plain_report rfl

theorem plain_takeParameter (goal : Goal) (stack : List Frame) (x : Lexeme)
    (next : Binding → Want) : (takeParameter goal stack x next).Plain := by
  unfold takeParameter
  split
  · trivial
  · exact plain_report rfl

theorem offers_takeEnd (goal : Goal) (e : Expr) (stack : List Frame) :
    Offers (takeEnd goal e stack) := by
  induction stack generalizing e with
  | nil => exact fun x => .inl (by simp [takeEnd, Reaction.Plain, Plain, reports, Event.report?])
  | cons frame stack ih =>
      cases frame with
      | rightOperand left op => exact ih _
      | _ => exact offers_expected rfl _

theorem offers_takeOperator (goal : Goal) (stack : List Frame) (e : Expr) :
    Offers (takeOperator goal stack e) := by
  intro x
  cases hx : x.token.operator? with
  | some op =>
      obtain ⟨token, span⟩ := x
      cases token with
      | operator op => exact .inl trivial
      | _ => cases hx
  | none =>
      rw [takeOperator_eq_takeEnd hx]
      rcases offers_takeEnd goal e stack x with
        hPlain | ⟨wanted, token, hMissed, hToken, hTakes, hAgain⟩
      · exact .inl hPlain
      refine .inr ⟨wanted, token, hMissed, hToken, fun y hy => ?_, fun y hy => ?_⟩
      · rw [takeOperator_eq_takeEnd (hy ▸ (Wanted.plain_supplied hToken).1)]
        exact hTakes y hy
      · rw [takeOperator_eq_takeEnd (hy ▸ hx)]
        exact hAgain y hy

theorem offers_take (parser : Parser) : Offers parser.take := by
  cases parser with
  | statement => exact fun x => .inl (plain_begin x)
  | recovery => exact fun x => .inl (plain_recover x)
  | target keyword | equals keyword name =>
      refine fun x => .inl ?_
      rw [take]
      split
      · trivial
      · exact plain_report rfl
  | text keyword =>
      refine fun x => .inl ?_
      rw [take]
      split
      · simp [Reaction.Plain, Plain, reports, Event.report?]
      · exact plain_report rfl
  | expression goal stack want =>
      cases want with
      | operand => exact fun x => .inl (plain_takeOperand goal stack x)
      | literal minus => exact fun x => .inl (plain_takeLiteral goal stack minus x)
      | operator e => exact offers_takeOperator goal stack e
      | opening keyword bulk =>
          cases bulk with
          | map | reduce => exact offers_expected rfl _
      | mapArrow | reduceArrow => exact offers_expected rfl _
      | mapParameter | accumulator | element =>
          exact fun x => .inl (plain_takeParameter goal stack x _)

theorem plain_resume (outcome : Event) (x : Lexeme) : Plain (outcome.resume.step x).1 := by
  have hPlain : (outcome.resume.take x).Plain := by
    cases outcome with
    | statement s => exact plain_begin x
    | report d => exact plain_recover x
  rcases take_resume outcome x with ⟨next, hNext⟩ | ⟨other, hOther⟩
  · rw [step_of_on hNext]
    exact plain_nil
  · rw [hOther] at hPlain
    rw [step_of_last hOther]
    exact hPlain

theorem plain_step {parser : Parser} {x : Lexeme} (h : (parser.take x).Plain) :
    Plain (parser.step x).1 := by
  cases hTake : parser.take x with
  | on next =>
      rw [step_of_on hTake]
      exact plain_nil
  | last outcome =>
      rw [hTake] at h
      rw [step_of_last hTake]
      exact h
  | before outcome =>
      rw [hTake] at h
      rw [step_of_before hTake, ← List.singleton_append, Plain, reports_append]
      exact List.forall_mem_append.mpr ⟨h, plain_resume outcome x⟩

/-- A token that is offered for insertion at any point of a program would be taken there, and the same
is offered at every other lexeme with the token that was found. -/
theorem offers_step (parser : Parser) {x : Lexeme} {d : Diagnostic}
    (hd : d ∈ reports (parser.step x).1) (hFix : d.fixIt ≠ none) :
    ∃ wanted token, d = missing wanted x ∧ wanted.supplied? = some token ∧
      (∀ y : Lexeme, y.token = token → ∃ next, parser.step y = ([], next)) ∧
      ∀ y : Lexeme, y.token = x.token →
        (reports (parser.step y).1).head? = some (missing wanted y) := by
  rcases parser.offers_take x with hPlain | ⟨wanted, token, hMissed, hToken, hTakes, hAgain⟩
  · exact absurd (plain_step hPlain d hd) hFix
  have hMissing : d = missing wanted x := by
    rw [step_of_before hMissed] at hd
    rcases List.mem_cons.mp hd with hFirst | hLater
    · exact hFirst
    · exact absurd (plain_resume _ x d hLater) hFix
  refine ⟨wanted, token, hMissing, hToken, fun y hy => ?_, fun y hy => ?_⟩
  · obtain ⟨next, hNext⟩ := hTakes y hy
    exact ⟨next, step_of_on hNext⟩
  · rw [step_of_before (hAgain y hy)]
    rfl

/-- With a text literal a statement is complete or given up. -/
theorem step_text (parser : Parser) (content : String) (span : Span) :
    (parser.step ⟨.text content, span⟩).2 = statement ∨
      (parser.step ⟨.text content, span⟩).2 = recovery := by
  cases parser with
  | statement | recovery | target | equals => exact .inr rfl
  | text => exact .inl rfl
  | expression goal stack want =>
      cases want with
      | literal minus =>
          have hOver : take (.expression goal stack (.literal minus)) ⟨.text content, span⟩ =
              .before (.report ⟨.parse (.expected .expression "-"), minus, none⟩) := ite_self _
          rw [step_of_before hOver]
          exact .inr rfl
      | operator e =>
          have hOver : ∃ outcome, takeEnd goal e stack ⟨.text content, span⟩ = .before outcome := by
            induction stack generalizing e with
            | nil => exact ⟨_, rfl⟩
            | cons frame stack ih =>
                cases frame with
                | rightOperand left op => exact ih _
                | _ => exact ⟨_, rfl⟩
          obtain ⟨outcome, hOutcome⟩ := hOver
          have hTake : take (.expression goal stack (.operator e)) ⟨.text content, span⟩ =
              .before outcome := hOutcome
          rw [step_of_before hTake]
          cases outcome with
          | statement | report => exact .inr rfl
      | opening keyword bulk =>
          cases bulk with
          | map | reduce => exact .inr rfl
      | operand | mapParameter | mapArrow | accumulator | element | reduceArrow => exact .inr rfl

theorem transduce_reports (parser : Parser) (log : Log) :
    transduce feed parser (log.map .report) = (log.map .report, parser) := by
  induction log with
  | nil => rfl
  | cons d log ih =>
      rw [List.map_cons, transduce_cons, feed, ih]
      rfl

theorem transduce_comment {x : Lexeme} (hx : x.token.isComment = true) (parser : Parser)
    (items : List Lexed) :
    transduce feed parser (items ++ [.lexeme x]) = transduce feed parser items := by
  rw [transduce_append, transduce_cons, feed, if_pos hx]
  simp

/-- The first report about tokens comes up with one lexeme, and none before it. -/
theorem exists_first_report {items : List Lexed} (hItems : ∀ item ∈ items, item.Lexical)
    {parser : Parser} {d : Diagnostic}
    (h : ((reports (transduce feed parser items).1).of [.parse]).head? = some d) :
    ∃ before x after, items = before ++ .lexeme x :: after ∧ x.token.isComment = false ∧
      (reports (transduce feed parser before).1).of [.parse] = [] ∧
      d ∈ reports ((transduce feed parser before).2.step x).1 := by
  induction items generalizing parser with
  | nil => cases h
  | cons item items ih =>
      obtain ⟨hItem, hRest⟩ := List.forall_mem_cons.mp hItems
      rw [transduce_cons, reports_append, Log.of_append] at h
      by_cases hHere : (reports (parser.feed item).1).of [.parse] = []
      · rw [hHere, List.nil_append] at h
        obtain ⟨before, x, after, rfl, hx, hBefore, hReport⟩ := ih hRest h
        refine ⟨item :: before, x, after, rfl, hx, ?_, hReport⟩
        rw [transduce_cons, reports_append, Log.of_append, hHere, hBefore, List.nil_append]
      · rw [List.head?_append_of_ne_nil _ hHere] at h
        have hReport : d ∈ (reports (parser.feed item).1).of [.parse] := List.mem_of_mem_head? h
        obtain ⟨hMem, hStage⟩ := List.mem_filter.mp hReport
        cases item with
        | report other =>
            cases List.mem_singleton.mp hMem
            have hLexical : d.stage = .lex := hItem
            simp [hLexical] at hStage
        | lexeme x =>
            rw [feed] at hMem
            split at hMem
            · cases hMem
            · next hx => exact ⟨[], x, items, rfl, by simpa using hx, rfl, hMem⟩

/-- After an unfinished text literal the end of the text is not reported. -/
theorem reports_after_text {items : List Lexed} {d : Diagnostic} {content : String} {span : Span}
    {events : List Event} {parser : Parser}
    (hRun : transduce feed first (items ++ [.report d, .lexeme ⟨.text content, span⟩]) =
      (events, parser)) {x : Lexeme} (hx : x.token = .finish) :
    reports (parser.step x).1 = [] := by
  have hParser : ((transduce feed first items).2.step ⟨.text content, span⟩).2 = parser := by
    rw [transduce_append] at hRun
    exact congrArg Prod.snd hRun
  rcases (transduce feed first items).2.step_text content span with hDone | hGiven
  · rw [← hParser, hDone]
    simp [step, take, begin, hx, Reaction.settle, reports]
  · rw [← hParser, hGiven]
    simp [step, take, recover, hx, Token.startsStatement, Reaction.settle, reports]

end Parser

end Progression
