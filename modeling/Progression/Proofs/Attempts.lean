import Progression.Proofs.Seams

/-! Statement by statement. A parser reads a program in attempts: each consumes at least its first
lexeme and comes to one thing, the statement or a report, and after a report all is skipped up to the
next word that can begin a statement. The steps of the parser do this with one lexeme of lookahead;
here the attempts are told apart, with the lexemes that each of them takes. -/

namespace Progression

/-- What came of an attempt to read a statement: the lexemes consumed by it, its outcome, and the
lexemes left to read. -/
structure Attempt where
  taken : List Lexeme
  outcome : Event
  rest : List Lexeme

namespace Parser

/-- Reads lexemes for as long as they are taken for the statement at hand. Without the end of the text
there may be no outcome. -/
def attempt? (parser : Parser) : List Lexeme → Option Attempt
  | [] => none
  | x :: xs =>
      match parser.take x with
      | .on next => (next.attempt? xs).map fun a => { a with taken := x :: a.taken }
      | .last outcome => some ⟨[x], outcome, xs⟩
      | .before outcome => some ⟨[], outcome, x :: xs⟩

end Parser

namespace Attempt

/-- The lexemes skipped after the attempt. -/
def skipped (a : Attempt) : List Lexeme :=
  match a.outcome with
  | .statement _ => []
  | .report _ => a.rest.takeWhile fun x => !x.token.opens

/-- The lexemes left for the next attempt. -/
def remaining (a : Attempt) : List Lexeme :=
  match a.outcome with
  | .statement _ => a.rest
  | .report _ => a.rest.dropWhile fun x => !x.token.opens

theorem skipped_append_remaining (a : Attempt) : a.skipped ++ a.remaining = a.rest := by
  unfold skipped remaining
  split
  · rfl
  · exact List.takeWhile_append_dropWhile

end Attempt

namespace Parser

theorem attempt?_split {parser : Parser} {xs : List Lexeme} {a : Attempt}
    (h : parser.attempt? xs = some a) : a.taken ++ a.rest = xs := by
  induction xs generalizing parser a with
  | nil => cases h
  | cons x xs ih =>
      rw [attempt?] at h
      split at h
      · obtain ⟨b, hb, rfl⟩ := Option.map_eq_some_iff.mp h
        exact congrArg (x :: ·) (ih hb)
      · cases h
        rfl
      · cases h
        rfl

/-- An attempt takes the lexeme that it begins with. -/
theorem attempt?_taken {xs : List Lexeme} {a : Attempt} (h : statement.attempt? xs = some a) :
    a.taken ≠ [] := by
  cases xs with
  | nil => cases h
  | cons x xs =>
      have hBegins := begins_statement x
      rw [attempt?] at h
      generalize statement.take x = reaction at h hBegins
      cases hBegins with
      | finish | keyword =>
          obtain ⟨b, -, rfl⟩ := Option.map_eq_some_iff.mp h
          exact List.cons_ne_nil _ _
      | refused =>
          cases h
          exact List.cons_ne_nil _ _

theorem remaining_length_lt {xs : List Lexeme} {a : Attempt} (h : statement.attempt? xs = some a) :
    a.remaining.length < xs.length := by
  have hTaken : 0 < a.taken.length := List.length_pos_iff.mpr (attempt?_taken h)
  have hSplit := congrArg List.length (attempt?_split h)
  have hRest := congrArg List.length a.skipped_append_remaining
  rw [List.length_append] at hSplit hRest
  omega

end Parser

/-- The attempts that are made until the end of the text. -/
def attempts (xs : List Lexeme) : List Attempt :=
  match xs with
  | [] => []
  | x :: xs =>
      if x.token.isFinish then []
      else
        match _h : Parser.statement.attempt? (x :: xs) with
        | none => []
        | some a => a :: attempts a.remaining
termination_by xs.length
decreasing_by exact Parser.remaining_length_lt _h

/-- The outcome of an attempt is a statement or a report about tokens. -/
def Event.Ends : Event → Prop
  | statement _ => True
  | report d => d.stage = .parse

theorem Parser.Concludes.ends {P : Location → Prop} {keyword : Span} {outcome : Event}
    (h : Concludes P keyword outcome) : outcome.Ends := by
  cases outcome with
  | statement s => trivial
  | report d => exact h

namespace Parser

/-- What an attempt on lexemes up to the end of the text comes to. It leaves the end of the text, and
the parser writes its outcome and then what it writes about the rest, read afresh. -/
structure Reads (parser : Parser) (xs : List Lexeme) (last : Lexeme) (a : Attempt) : Prop where
  attempt : parser.attempt? xs = some a
  ends : a.outcome.Ends
  rest : ∃ ys, a.rest = ys ++ [last]
  run : (transduce step parser xs).1 = a.outcome :: (transduce step a.outcome.resume a.rest).1

section Run

variable {parser next : Parser} {keyword : Span} {x last : Lexeme} {xs : List Lexeme}
  {outcome : Event}

theorem Reads.on {a : Attempt} (h : Reads next xs last a) (hTake : parser.take x = .on next) :
    Reads parser (x :: xs) last { a with taken := x :: a.taken } where
  attempt := by simp [attempt?, hTake, h.attempt]
  ends := h.ends
  rest := h.rest
  run := (transduce_of_on hTake xs).trans h.run

theorem reads_last (hTake : parser.take x = .last outcome) (hEnds : outcome.Ends)
    (hRest : ∃ ys, xs = ys ++ [last]) : Reads parser (x :: xs) last ⟨[x], outcome, xs⟩ where
  attempt := by simp [attempt?, hTake]
  ends := hEnds
  rest := hRest
  run := transduce_of_last hTake xs

theorem reads_before (hTake : parser.take x = .before outcome) (hEnds : outcome.Ends)
    (hRest : ∃ ys, x :: xs = ys ++ [last]) :
    Reads parser (x :: xs) last ⟨[], outcome, x :: xs⟩ where
  attempt := by simp [attempt?, hTake]
  ends := hEnds
  rest := hRest
  run := transduce_of_before hTake xs

variable (hLast : last.token = .finish)

include hLast

theorem Within.reads (h : parser.Within (fun _ => True) keyword) :
    ∃ a, Reads parser (xs ++ [last]) last a := by
  induction xs generalizing parser with
  | nil =>
      have hMoves := take_moves h (x := last) trivial
      generalize hTake : parser.take last = reaction at hMoves
      cases hMoves with
      | on hx => exact absurd hLast hx
      | last hx => exact absurd hLast hx
      | before hEnds => exact ⟨_, reads_before hTake hEnds.ends ⟨[], rfl⟩⟩
  | cons x xs ih =>
      have hMoves := take_moves h (x := x) trivial
      generalize hTake : parser.take x = reaction at hMoves
      cases hMoves with
      | on _ hNext =>
          obtain ⟨a, ha⟩ := ih hNext
          exact ⟨_, ha.on hTake⟩
      | last _ hEnds => exact ⟨_, reads_last hTake hEnds.ends ⟨xs, rfl⟩⟩
      | before hEnds => exact ⟨_, reads_before hTake hEnds.ends ⟨x :: xs, rfl⟩⟩

/-- An attempt before the end of the text comes to something. -/
theorem statement_reads (hx : x.token ≠ .finish) :
    ∃ a, Reads statement (x :: xs ++ [last]) last a := by
  have hBegins := begins_statement x
  generalize hTake : statement.take x = reaction at hBegins
  cases hBegins with
  | finish hFinish => exact absurd hFinish hx
  | keyword _ hNext =>
      obtain ⟨a, ha⟩ := (hNext _).reads hLast
      exact ⟨_, ha.on hTake⟩
  | refused => exact ⟨_, reads_last hTake rfl ⟨xs, rfl⟩⟩

/-- Recovery writes nothing, and the parser goes on with the first lexeme at which it stops. -/
theorem transduce_recovery (hFinish : ∀ x ∈ xs, x.token ≠ .finish) :
    (transduce step recovery (xs ++ [last])).1 = (transduce step statement
      ((xs ++ [last]).dropWhile fun x => !x.token.opens)).1 := by
  have hStop : last.token.opens = true := by simp [hLast, Token.opens, Token.isFinish]
  induction xs with
  | nil =>
      have hRecover : recovery.step last = ([], recovery) :=
        step_of_on (by simp [take, recover, hLast, Token.startsStatement])
      have hBegin : statement.step last = ([], statement) :=
        step_of_on (by simp [take, begin, hLast])
      simp [transduce_cons, hStop, hRecover, hBegin]
  | cons x xs ih =>
      obtain ⟨hx, hRest⟩ := List.forall_mem_cons.mp hFinish
      have hOpens : x.token.opens = x.token.startsStatement := by
        unfold Token.opens
        cases hToken : x.token <;> simp_all [Token.isFinish]
      rw [List.cons_append, List.dropWhile_cons, hOpens]
      cases hStarts : x.token.startsStatement with
      | true =>
          have hSame : recovery.step x = statement.step x := by
            simp [step, take, recover, hStarts]
          simp only [Bool.not_true, Bool.false_eq_true, if_false, transduce_cons, hSame]
      | false =>
          have hSkipped : recovery.step x = ([], recovery) :=
            step_of_on (by simp [take, recover, hStarts])
          simp only [Bool.not_false, if_true, transduce_cons, hSkipped, List.nil_append, ih hRest]

end Run

end Parser

/-- Recovery does not skip the end of the text. -/
theorem dropWhile_append_finish {last : Lexeme} (hLast : last.token = .finish)
    (ys : List Lexeme) :
    (ys ++ [last]).dropWhile (fun x => !x.token.opens) =
      ys.dropWhile (fun x => !x.token.opens) ++ [last] := by
  have hStop : last.token.opens = true := by simp [hLast, Token.opens, Token.isFinish]
  rw [List.dropWhile_append]
  split
  · next hEmpty => simp [List.isEmpty_iff.mp hEmpty, hStop]
  · rfl

/-- What remains after an attempt still ends with the end of the text. -/
theorem Attempt.exists_remaining {a : Attempt} {ys : List Lexeme} {last : Lexeme}
    (hLast : last.token = .finish) (hRest : a.rest = ys ++ [last]) :
    ∃ zs, a.remaining = zs ++ [last] ∧ a.skipped ++ zs = ys := by
  have hWhole := a.skipped_append_remaining
  have hRemaining : ∃ zs, a.remaining = zs ++ [last] := by
    unfold remaining
    split
    · exact ⟨ys, hRest⟩
    · exact ⟨_, hRest ▸ dropWhile_append_finish hLast ys⟩
  obtain ⟨zs, hZs⟩ := hRemaining
  refine ⟨zs, hZs, ?_⟩
  rw [hRest, hZs, ← List.append_assoc] at hWhole
  exact List.append_cancel_right hWhole

theorem attempts_cons {x : Lexeme} {xs : List Lexeme} {a : Attempt} (hx : x.token ≠ .finish)
    (h : Parser.statement.attempt? (x :: xs) = some a) :
    attempts (x :: xs) = a :: attempts a.remaining := by
  have hToken : x.token.isFinish = false := by
    cases hToken : x.token <;> simp_all [Token.isFinish]
  rw [attempts, if_neg (by simp [hToken])]
  split
  · next hNone => rw [h] at hNone; cases hNone
  · next b hSome =>
      rw [h] at hSome
      cases hSome
      rfl

/-- Each attempt begins with one of the lexemes before the end of the text. -/
theorem exists_of_mem_attempts {xs : List Lexeme} {a : Attempt} (h : a ∈ attempts xs) :
    ∃ y ys, y :: ys <:+ xs ∧ y.token ≠ .finish ∧ Parser.statement.attempt? (y :: ys) = some a := by
  fun_induction attempts xs with
  | case1 | case2 | case3 => cases h
  | case4 x xs hFinish b hb ih =>
      rcases List.mem_cons.mp h with rfl | hLater
      · refine ⟨x, xs, List.suffix_rfl, ?_, hb⟩
        intro hx
        rw [hx] at hFinish
        exact hFinish rfl
      · obtain ⟨y, ys, hSuffix, hAttempt⟩ := ih hLater
        have hRemaining : b.remaining <:+ x :: xs := by
          rw [← Parser.attempt?_split hb, ← b.skipped_append_remaining, ← List.append_assoc]
          exact List.suffix_append _ _
        exact ⟨y, ys, hSuffix.trans hRemaining, hAttempt⟩

/-- The parser writes the outcomes of the attempts, one for each, and the lexemes before the end of
the text are those that the attempts consume and those that are skipped after them. -/
theorem attempts_account {xs : List Lexeme} {last : Lexeme} (hLast : last.token = .finish)
    (hFinish : ∀ x ∈ xs, x.token ≠ .finish) :
    (attempts (xs ++ [last])).map Attempt.outcome =
        (transduce Parser.step Parser.statement (xs ++ [last])).1 ∧
      (attempts (xs ++ [last])).flatMap (fun a => a.taken ++ a.skipped) = xs := by
  -- Every attempt leaves fewer lexemes, so the induction is on their number.
  induction hLength : xs.length using Nat.strongRecOn generalizing xs with
  | ind length ih =>
      cases xs with
      | nil =>
          have hBegin : Parser.statement.step last = ([], .statement) :=
            Parser.step_of_on (by simp [Parser.take, Parser.begin, hLast])
          rw [List.nil_append, attempts]
          simp [hLast, Token.isFinish, transduce_cons, hBegin]
      | cons x xs =>
          obtain ⟨hx, -⟩ := List.forall_mem_cons.mp hFinish
          obtain ⟨a, ha⟩ : ∃ a, Parser.Reads .statement (x :: xs ++ [last]) last a :=
            Parser.statement_reads hLast hx
          obtain ⟨ys, hRest⟩ := ha.rest
          obtain ⟨zs, hRemaining, hSkipped⟩ := a.exists_remaining hLast hRest
          have hSplit : a.taken ++ a.skipped ++ zs = x :: xs := by
            have hWhole := Parser.attempt?_split ha.attempt
            rw [hRest, ← hSkipped, ← List.append_assoc, ← List.append_assoc] at hWhole
            exact List.append_cancel_right hWhole
          have hShorter : zs.length < length := by
            have hLt := Parser.remaining_length_lt ha.attempt
            simp only [hRemaining, List.length_append, List.length_cons] at hLt hLength
            omega
          have hLater : ∀ z ∈ zs, z.token ≠ .finish := fun z hz =>
            hFinish z (by rw [← hSplit]; exact List.mem_append_right _ hz)
          have hYs : ∀ y ∈ ys, y.token ≠ .finish := fun y hy =>
            hFinish y (by rw [← hSplit, List.append_assoc, hSkipped]; exact List.mem_append_right _ hy)
          obtain ⟨hOutcomes, hCovered⟩ := ih zs.length hShorter hLater rfl
          have hResumed : (transduce Parser.step a.outcome.resume a.rest).1 =
              (transduce Parser.step Parser.statement a.remaining).1 := by
            unfold Attempt.remaining
            cases a.outcome with
            | statement s => rfl
            | report d =>
                rw [hRest]
                exact Parser.transduce_recovery hLast hYs
          have hAttempts : attempts (x :: xs ++ [last]) = a :: attempts a.remaining :=
            attempts_cons hx ha.attempt
          rw [hAttempts, ha.run, hResumed, hRemaining, List.map_cons, List.flatMap_cons, hOutcomes,
            hCovered]
          exact ⟨rfl, hSplit⟩

/-- The lexemes that the grammar is about. -/
def significant (items : List Lexed) : List Lexeme :=
  (lexemes items).filter fun x => !x.token.isComment

theorem significant_lexeme (x : Lexeme) (items : List Lexed) :
    significant (.lexeme x :: items) =
      if x.token.isComment then significant items else x :: significant items := by
  cases hx : x.token.isComment <;> simp [significant, lexemes, Lexed.lexeme?, hx]

/-- The significant lexemes of a text are those before its end, and its end. -/
theorem significant_lex (source : String) :
    ∃ xs last, significant (lex source) = xs ++ [last] ∧ last.token = .finish ∧
      ∀ x ∈ xs, x.token ≠ .finish := by
  obtain ⟨covered, gap, xs, -, hTiled, hLexemes⟩ := lex_tiled source
  refine ⟨xs.filter fun x => !x.token.isComment,
    ⟨.finish, .point (Place.first.after source.toList).location⟩, ?_, rfl, ?_⟩
  · rw [significant, hLexemes, List.filter_append]
    rfl
  · exact fun x hx => hTiled.token_ne_finish x (List.mem_of_mem_filter hx)

/-- An attempt on a text looks at lexemes of the text. -/
theorem attempts_subset {source : String} {a : Attempt}
    (h : a ∈ attempts (significant (lex source))) :
    a.taken ++ a.rest ⊆ lexemes (lex source) := by
  obtain ⟨y, ys, hSuffix, -, hAttempt⟩ := exists_of_mem_attempts h
  rw [Parser.attempt?_split hAttempt]
  exact fun x hx => List.mem_of_mem_filter (hSuffix.subset hx)

/-- Whether the event is a report about characters. -/
def Event.isLexical : Event → Bool
  | report d => d.stage = .lex
  | statement _ => false

namespace Parser

theorem step_isLexical (parser : Parser) (x : Lexeme) :
    ∀ event ∈ (parser.step x).1, event.isLexical = false := by
  intro event hMem
  cases event with
  | statement s => rfl
  | report d =>
      have hStage := (parser.explained_step x).stage d (List.mem_filterMap.mpr ⟨_, hMem, rfl⟩)
      simp [Event.isLexical, hStage]

/-- Apart from the reports about characters, which it passes on, a parser writes what the significant
lexemes make it write. -/
theorem filter_transduce_feed {items : List Lexed} (h : ∀ item ∈ items, item.Lexical)
    (parser : Parser) :
    (transduce feed parser items).1.filter (fun event => !event.isLexical) =
      (transduce step parser (significant items)).1 := by
  induction items generalizing parser with
  | nil => rfl
  | cons item items ih =>
      obtain ⟨hItem, hRest⟩ := List.forall_mem_cons.mp h
      rw [transduce_cons, List.filter_append, ih hRest]
      cases item with
      | report d =>
          have hStage : d.stage = .lex := hItem
          have hPassed : (parser.feed (.report d)).1.filter (fun event => !event.isLexical) = [] := by
            simp [feed, Event.isLexical, hStage]
          rw [hPassed]
          rfl
      | lexeme x =>
          rw [significant_lexeme, feed]
          split
          · rfl
          · have hOwn : (parser.step x).1.filter (fun event => !event.isLexical) =
                (parser.step x).1 :=
              List.filter_eq_self.mpr fun event hMem => by
                simp [parser.step_isLexical x event hMem]
            rw [hOwn, transduce_cons]

end Parser

/-- The statements of a program and the reports about its tokens are the outcomes of the attempts. -/
theorem filter_parse (source : String) :
    (parse source).filter (fun event => !event.isLexical) =
      (attempts (significant (lex source))).map Attempt.outcome := by
  obtain ⟨xs, last, hLexemes, hLast, hFinish⟩ := significant_lex source
  obtain ⟨hOutcomes, -⟩ := attempts_account hLast hFinish
  rw [parse, Parser.filter_transduce_feed (lex_lexical source), hLexemes, hOutcomes]
  rfl

/-- Among the events of reading a program that are not about characters each is a statement or a
report about tokens. -/
theorem length_filter_isLexical {events : List Event}
    (h : ∀ d ∈ reports events, d.stage ∈ [Stage.lex, .parse]) :
    (events.filter fun event => !event.isLexical).length =
      ((reports events).of [.parse]).length + (statements events).length := by
  induction events with
  | nil => rfl
  | cons event events ih =>
      cases event with
      | statement s => exact congrArg (· + 1) (ih h)
      | report d =>
          obtain ⟨hStage, hRest⟩ := List.forall_mem_cons.mp h
          have hReports : reports (.report d :: events) = d :: reports events := rfl
          have hStatements : statements (.report d :: events) = statements events := rfl
          rw [hReports, hStatements, List.filter_cons, Log.of, List.filter_cons]
          rcases (by simpa using hStage : d.stage = .lex ∨ d.stage = .parse) with hLex | hParse
          · simpa [Event.isLexical, Log.of, hLex] using ih hRest
          · rw [if_pos (by simp [Event.isLexical, hParse]), if_pos (by simp [hParse])]
            exact (congrArg (· + 1) (ih hRest)).trans (Nat.add_right_comm _ _ _)

/-- A program is read in attempts. Wherever the text has not ended, an attempt consumes at least one
lexeme and comes to one thing: a statement, and then nothing is reported about it, or one report about
tokens; after it the parser goes on with the lexemes that are left. Recovery writes nothing and stops
at the first of them that can begin a statement, or at the end of the text. So there are as many
attempts as reports about tokens and statements together, in this order, and of the significant lexemes
before the end of the text each is consumed once, by an attempt or after it. -/
theorem one_outcome_per_attempt :
    (∀ (x : Lexeme) (xs : List Lexeme) (last : Lexeme), x.token ≠ .finish → last.token = .finish →
      ∃ a, Parser.statement.attempt? (x :: xs ++ [last]) = some a ∧
        a.taken ++ a.rest = x :: xs ++ [last] ∧ a.taken ≠ [] ∧ a.rest ≠ [] ∧
        ((∃ s, a.outcome = .statement s) ∨ ∃ d, a.outcome = .report d ∧ d.stage = .parse) ∧
        (transduce Parser.step Parser.statement (x :: xs ++ [last])).1 =
          a.outcome :: (transduce Parser.step a.outcome.resume a.rest).1) ∧
    (∀ (xs : List Lexeme) (last : Lexeme), (∀ x ∈ xs, x.token ≠ .finish) → last.token = .finish →
      (transduce Parser.step Parser.recovery (xs ++ [last])).1 =
          (transduce Parser.step Parser.statement
            ((xs ++ [last]).dropWhile fun x => !x.token.opens)).1 ∧
        ∃ y ys, (xs ++ [last]).dropWhile (fun x => !x.token.opens) = y :: ys ∧
          y.token.opens = true) ∧
    ∀ source,
      (parse source).filter (fun event => !event.isLexical) =
        (attempts (significant (lex source))).map Attempt.outcome ∧
      ((reports (parse source)).of [.parse]).length + (statements (parse source)).length =
        (attempts (significant (lex source))).length ∧
      ∃ last, last.token = .finish ∧ significant (lex source) =
        (attempts (significant (lex source))).flatMap (fun a => a.taken ++ a.skipped) ++ [last] := by
  refine ⟨fun x xs last hx hLast => ?_, fun xs last hFinish hLast => ⟨?_, ?_⟩, fun source => ?_⟩
  · obtain ⟨a, ha⟩ : ∃ a, Parser.Reads .statement (x :: xs ++ [last]) last a :=
      Parser.statement_reads hLast hx
    obtain ⟨ys, hRest⟩ := ha.rest
    refine ⟨a, ha.attempt, Parser.attempt?_split ha.attempt, Parser.attempt?_taken ha.attempt,
      by simp [hRest], ?_, ha.run⟩
    have hEnds := ha.ends
    cases hOutcome : a.outcome with
    | statement s => exact .inl ⟨s, rfl⟩
    | report d =>
        rw [hOutcome] at hEnds
        exact .inr ⟨d, rfl, hEnds⟩
  · exact Parser.transduce_recovery hLast hFinish
  · have hSome : (xs ++ [last]).dropWhile (fun x => !x.token.opens) ≠ [] := by
      simp [dropWhile_append_finish hLast]
    have hHead := List.head_dropWhile_not (fun x : Lexeme => !x.token.opens) hSome
    exact ⟨_, _, (List.cons_head_tail hSome).symm, by simpa using hHead⟩
  · obtain ⟨xs, last, hLexemes, hLast, hFinish⟩ := significant_lex source
    obtain ⟨-, hCovered⟩ := attempts_account hLast hFinish
    refine ⟨filter_parse source, ?_, last, hLast, ?_⟩
    · rw [← length_filter_isLexical (stage_of_parse source), filter_parse, List.length_map]
    · rw [hLexemes, hCovered]

/-- Two statements are given up, one of them at a word that could begin a statement but is taken as a
name, and one is read in between. -/
theorem one_outcome_per_attempt_abandoned :
    (∃ a, Parser.statement.attempt? [⟨.identifier "out", ⟨⟨1, 1⟩, ⟨1, 4⟩⟩⟩,
        ⟨.finish, .point ⟨1, 4⟩⟩] = some a ∧ a.taken ≠ [] ∧ a.rest ≠ []) ∧
      (∃ y ys, [⟨.comma, ⟨⟨1, 1⟩, ⟨1, 2⟩⟩⟩, ⟨.finish, .point ⟨1, 2⟩⟩].dropWhile
        (fun x : Lexeme => !x.token.opens) = y :: ys ∧ y.token.opens = true) ∧
      ((reports (parse "out (1 x out 2 var out 3")).of [.parse]).length = 2 ∧
      (statements (parse "out (1 x out 2 var out 3")).length = 1 ∧
      (attempts (significant (lex "out (1 x out 2 var out 3"))).length = 3 := by
  obtain ⟨hAttempt, hRecovery, hSource⟩ := one_outcome_per_attempt
  obtain ⟨a, hSome, -, hTaken, hRest, -⟩ := hAttempt ⟨.identifier "out", ⟨⟨1, 1⟩, ⟨1, 4⟩⟩⟩ []
    ⟨.finish, .point ⟨1, 4⟩⟩ (by decide) rfl
  obtain ⟨-, hStops⟩ := hRecovery [⟨.comma, ⟨⟨1, 1⟩, ⟨1, 2⟩⟩⟩] ⟨.finish, .point ⟨1, 2⟩⟩
    (by decide) rfl
  obtain ⟨-, hCount, -⟩ := hSource "out (1 x out 2 var out 3"
  have hReports : ((reports (parse "out (1 x out 2 var out 3")).of [.parse]).length = 2 := by
    decide +kernel
  have hStatements : (statements (parse "out (1 x out 2 var out 3")).length = 1 := by
    decide +kernel
  refine ⟨⟨a, hSome, hTaken, hRest⟩, hStops, hReports, hStatements, ?_⟩
  rw [← hCount, hReports, hStatements]

end Progression
