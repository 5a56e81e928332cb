import Progression.Proofs.Seams

/-! Where lexemes begin. A text can be cut in front of any of its lexemes, the end of the text included:
all that stands before the lexeme, apart from reports about it, is written by then or is written as soon
as the lexeme at hand is closed there. So it does not depend on what comes after the cut. -/

namespace Progression

/-- Where the lexeme at hand begins, if one is being read. -/
def Mode.start? : Mode → Option Location
  | between => none
  | minus start | name start _ | number start _ _ | dots start | text start _ | escape start _ _
  | comment start _ => some start

/-- All that is written of a lexeme that begins at `start`: the reports about it and the lexeme. -/
def Lexed.Whole (start : Location) (written : List Lexed) : Prop :=
  ∃ (log : Log) (x : Lexeme), written = log.map report ++ [lexeme x] ∧ x.span.start = start

/-- The first lexeme of a list after reports is found in one place only. -/
theorem Lexed.Whole.split {start : Location} {written before after : List Lexed} {x : Lexeme}
    (h : Whole start written) (hSplit : written = before ++ lexeme x :: after) :
    x.span.start = start ∧ ∃ log : Log, before = log.map report := by
  obtain ⟨log, y, rfl, hy⟩ := h
  induction log generalizing before with
  | nil =>
      cases before with
      | nil =>
          cases hSplit
          exact ⟨hy, [], rfl⟩
      | cons item before => simp at hSplit
  | cons d log ih =>
      cases before with
      | nil => simp at hSplit
      | cons item before =>
          obtain ⟨rfl, hRest⟩ := List.cons.inj hSplit
          obtain ⟨hStart, log', rfl⟩ := ih hRest
          exact ⟨hStart, d :: log', rfl⟩

theorem map_report_ne {log : Log} {before after : List Lexed} {x : Lexeme} :
    log.map .report ≠ before ++ .lexeme x :: after := by
  intro h
  have hMem : Lexed.lexeme x ∈ log.map .report := by simp [h]
  simp at hMem

/-- An item of two joined lists stands in the first or in the second. -/
theorem append_eq_split {α : Type} {first second before after : List α} {x : α}
    (h : first ++ second = before ++ x :: after) :
    (∃ tail, first = before ++ x :: tail) ∨
      ∃ middle, before = first ++ middle ∧ second = middle ++ x :: after := by
  rcases List.append_eq_append_iff.mp h with hLater | ⟨tail, hFirst, hTail⟩
  · exact .inr hLater
  · cases tail with
    | nil =>
        refine .inr ⟨[], ?_, hTail.symm⟩
        rw [hFirst, List.append_nil, List.append_nil]
    | cons y tail =>
        obtain ⟨rfl, -⟩ := List.cons.inj hTail
        exact .inl ⟨tail, hFirst⟩

namespace Mode

theorem close_of_start? {mode : Mode} (h : mode.start? = none) (stop : Location) :
    mode.close stop = [] := by
  cases mode with
  | between => rfl
  | _ => cases h

theorem close_whole {mode : Mode} {start : Location} (h : mode.start? = some start)
    (stop : Location) : Lexed.Whole start (mode.close stop) := by
  cases mode with
  | between => cases h
  | number s read dotted =>
      cases h
      simp only [close, numberLexed]
      split
      · exact ⟨[_], _, rfl, rfl⟩
      split
      · exact ⟨[], _, rfl, rfl⟩
      · exact ⟨[], _, rfl, rfl⟩
  | text s read | escape s read backslash =>
      cases h
      exact ⟨[_], _, rfl, rfl⟩
  | minus | name | dots | comment =>
      cases h
      exact ⟨[], _, rfl, rfl⟩

theorem extend?_whole {mode after : Mode} {flag : Bool} {here next : Location} {c : Char}
    {written : List Lexed} (h : mode.extend? flag here next c = some (written, after)) :
    ∃ start, mode.start? = some start ∧
      (Lexed.Whole start written ∧ after = between ∨
        (∃ log : Log, written = log.map .report) ∧ after.start? = some start) := by
  cases mode with
  | between => cases h
  | minus start =>
      refine ⟨start, rfl, ?_⟩
      simp only [extend?] at h
      split at h
      · cases h
        exact .inl ⟨⟨[], _, rfl, rfl⟩, rfl⟩
      split at h
      · cases h
        exact .inr ⟨⟨[], rfl⟩, rfl⟩
      · cases h
  | name start read =>
      refine ⟨start, rfl, ?_⟩
      simp only [extend?] at h
      split at h
      · cases h
        exact .inr ⟨⟨[], rfl⟩, rfl⟩
      · cases h
  | number start read dotted =>
      refine ⟨start, rfl, ?_⟩
      simp only [extend?] at h
      split at h
      · cases h
        exact .inr ⟨⟨[], rfl⟩, rfl⟩
      split at h
      · split at h
        · cases h
          exact .inr ⟨⟨[_], rfl⟩, rfl⟩
        · cases h
          exact .inr ⟨⟨[], rfl⟩, rfl⟩
      · cases h
  | dots start =>
      refine ⟨start, rfl, ?_⟩
      simp only [extend?] at h
      split at h
      · cases h
        exact .inr ⟨⟨[], rfl⟩, rfl⟩
      · cases h
  | text start read =>
      refine ⟨start, rfl, ?_⟩
      simp only [extend?] at h
      split at h
      · cases h
        exact .inl ⟨⟨[], _, rfl, rfl⟩, rfl⟩
      split at h
      · cases h
        exact .inl ⟨⟨[_], _, rfl, rfl⟩, rfl⟩
      split at h
      · cases h
        exact .inr ⟨⟨[], rfl⟩, rfl⟩
      · cases h
        exact .inr ⟨⟨[], rfl⟩, rfl⟩
  | escape start read backslash =>
      refine ⟨start, rfl, ?_⟩
      simp only [extend?] at h
      split at h
      · cases h
        exact .inr ⟨⟨[], rfl⟩, rfl⟩
      · cases h
        exact .inr ⟨⟨[_], rfl⟩, rfl⟩
  | comment start read =>
      refine ⟨start, rfl, ?_⟩
      simp only [extend?] at h
      split at h
      · cases h
      · cases h
        exact .inr ⟨⟨[], rfl⟩, rfl⟩

theorem begin_blank {c : Char} (h : Text.isBlank c = true) (here next : Location) :
    begin here next c = ([], between) := if_pos h

/-- A character that is not blank is a lexeme or begins one. -/
theorem begin_whole {c : Char} (h : Text.isBlank c = false) (here next : Location) :
    Lexed.Whole here (begin here next c).1 ∧ (begin here next c).2 = between ∨
      (begin here next c).1 = [] ∧ (begin here next c).2.start? = some here := by
  rw [begin, if_neg (by simp [h])]
  split
  · exact .inr ⟨rfl, rfl⟩
  split
  · exact .inr ⟨rfl, rfl⟩
  split
  · exact .inr ⟨rfl, rfl⟩
  split
  · exact .inr ⟨rfl, rfl⟩
  split
  · exact .inr ⟨rfl, rfl⟩
  split
  · exact .inl ⟨⟨[], _, rfl, rfl⟩, rfl⟩
  · exact .inl ⟨⟨[_], _, rfl, rfl⟩, rfl⟩

end Mode

namespace Lexer

/-- The lexeme at hand goes on with the character. -/
def Extends (lexer : Lexer) (c : Char) : Prop :=
  lexer.mode.extend? lexer.afterOperand lexer.place.location (lexer.place.advance c).location c ≠ none

theorem rest_nil (lexer : Lexer) : lexer.rest [] = lexer.mode.close lexer.place.location ++
    [.lexeme ⟨.finish, .point lexer.place.location⟩] := rfl

/-- A text cut in front of its lexeme `x`, before which `items` are written. At the cut nothing is left
to write of them but the lexeme at hand, which does not go on, and reports about `x`. -/
structure Cut (lexer : Lexer) (cs : List Char) (x : Lexeme) (items : List Lexed) where
  before : List Char
  after : List Char
  written : List Lexed
  reached : Lexer
  log : Log
  text : cs = before ++ after
  run : transduce step lexer before = (written, reached)
  split : items = written ++ reached.mode.close reached.place.location ++ log.map .report
  start : x.span.start = reached.place.location
  next : ∀ c ∈ after.head?, Text.isBlank c = false ∧ ¬reached.Extends c
  ended : after = [] → x.token = .finish

namespace Cut

variable {lexer : Lexer} {cs : List Char} {c : Char} {x : Lexeme} {items : List Lexed}

/-- The cut in front of the next character. -/
def here (log : Log) (hStart : x.span.start = lexer.place.location)
    (hNext : ∀ c ∈ cs.head?, Text.isBlank c = false ∧ ¬lexer.Extends c)
    (hEnded : cs = [] → x.token = .finish) :
    lexer.Cut cs x (lexer.mode.close lexer.place.location ++ log.map .report) where
  before := []
  after := cs
  written := []
  reached := lexer
  log := log
  text := rfl
  run := rfl
  split := rfl
  start := hStart
  next := hNext
  ended := hEnded

/-- A cut further on. -/
def cons (cut : (lexer.step c).2.Cut cs x items) :
    lexer.Cut (c :: cs) x ((lexer.step c).1 ++ items) where
  before := c :: cut.before
  after := cut.after
  written := (lexer.step c).1 ++ cut.written
  reached := cut.reached
  log := cut.log
  text := congrArg (c :: ·) cut.text
  run := by rw [transduce_cons, cut.run]
  split := by
    conv => lhs; rw [cut.split]
    simp only [List.append_assoc]
  start := cut.start
  next := cut.next
  ended := cut.ended

/-- What is written before the cut, the lexeme at hand included. -/
def closed (cut : lexer.Cut cs x items) : List Lexed :=
  cut.written ++ cut.reached.mode.close cut.reached.place.location

/-- Before the cut nothing depends on what comes after it. -/
theorem rest_before (cut : lexer.Cut cs x items) (more : List Char) :
    lexer.rest (cut.before ++ more) = cut.written ++ cut.reached.rest more := by
  rw [rest_append, cut.run]

theorem rest_eq (cut : lexer.Cut cs x items) :
    lexer.rest cs = cut.written ++ cut.reached.rest cut.after :=
  (congrArg lexer.rest cut.text).trans (cut.rest_before cut.after)

theorem place_eq (cut : lexer.Cut cs x items) (hMode : lexer.mode = .between) :
    cut.reached.place = lexer.place.after cut.before := by
  rw [← (lexer.transduce_tiled hMode cut.before).1, cut.run]

end Cut

theorem step_of_extends {lexer : Lexer} {c : Char} (h : lexer.Extends c) :
    ∃ start, lexer.mode.start? = some start ∧
      (Lexed.Whole start (lexer.step c).1 ∧ (lexer.step c).2.mode = .between ∨
        (∃ log : Log, (lexer.step c).1 = log.map .report) ∧
          (lexer.step c).2.mode.start? = some start) := by
  obtain ⟨⟨written, after⟩, hExtend⟩ := Option.ne_none_iff_exists'.mp h
  simp only [step, hExtend]
  exact Mode.extend?_whole hExtend

theorem step_of_not_extends {lexer : Lexer} {c : Char} (h : ¬lexer.Extends c) :
    (lexer.step c).1 = lexer.mode.close lexer.place.location ++
        (Mode.begin lexer.place.location (lexer.place.advance c).location c).1 ∧
      (lexer.step c).2.mode =
        (Mode.begin lexer.place.location (lexer.place.advance c).location c).2 := by
  simp only [step, not_not.mp h, and_self]

/-- A lexeme is the one at hand, or the text can be cut in front of it. -/
theorem exists_cut {lexer : Lexer} {cs : List Char} {x : Lexeme} {items later : List Lexed}
    (h : lexer.rest cs = items ++ .lexeme x :: later) :
    lexer.mode.start? = some x.span.start ∧ (∃ log : Log, items = log.map .report) ∨
      Nonempty (lexer.Cut cs x items) := by
  -- What closes the lexeme at hand holds that lexeme only.
  have hClose {lexer : Lexer} {items tail : List Lexed}
      (h : lexer.mode.close lexer.place.location = items ++ .lexeme x :: tail) :
      lexer.mode.start? = some x.span.start ∧ ∃ log : Log, items = log.map .report := by
    cases hStart : lexer.mode.start? with
    | none => simp [Mode.close_of_start? hStart] at h
    | some start =>
        obtain ⟨rfl, hLog⟩ := (Mode.close_whole hStart _).split h
        exact ⟨rfl, hLog⟩
  induction cs generalizing lexer items with
  | nil =>
      rw [rest_nil] at h
      rcases append_eq_split h with ⟨tail, hHand⟩ | ⟨middle, rfl, hLast⟩
      · exact .inl (hClose hHand)
      · cases middle with
        | cons item middle => simp at hLast
        | nil =>
            cases hLast
            exact .inr ⟨.here [] rfl (by simp) fun _ => rfl⟩
  | cons c cs ih =>
      rw [rest_cons] at h
      by_cases hExtends : lexer.Extends c
      · obtain ⟨start, hStart, hStep⟩ := step_of_extends hExtends
        rcases append_eq_split h with ⟨tail, hHand⟩ | ⟨middle, rfl, hLater⟩
        · rcases hStep with ⟨hWhole, -⟩ | ⟨⟨log, hLog⟩, -⟩
          · obtain ⟨rfl, hReports⟩ := hWhole.split hHand
            exact .inl ⟨hStart, hReports⟩
          · exact absurd (hLog.symm.trans hHand) map_report_ne
        · rcases ih hLater with ⟨hNext, log, rfl⟩ | ⟨⟨cut⟩⟩
          · rcases hStep with ⟨-, hBetween⟩ | ⟨⟨before, hBefore⟩, hSame⟩
            · rw [hBetween] at hNext
              cases hNext
            · rw [hSame] at hNext
              cases hNext
              exact .inl ⟨hStart, before ++ log, by rw [hBefore, List.map_append]⟩
          · exact .inr ⟨cut.cons⟩
      · obtain ⟨hWritten, hMode⟩ := step_of_not_extends hExtends
        rcases append_eq_split h with ⟨tail, hHand⟩ | ⟨middle, rfl, hLater⟩
        · rw [hWritten] at hHand
          rcases append_eq_split hHand with ⟨tail, hClosed⟩ | ⟨middle, rfl, hBegun⟩
          · exact .inl (hClose hClosed)
          · -- The character is a lexeme by itself.
            cases hBlank : Text.isBlank c with
            | true => simp [Mode.begin_blank hBlank] at hBegun
            | false =>
                rcases Mode.begin_whole hBlank lexer.place.location
                  (lexer.place.advance c).location with ⟨hWhole, -⟩ | ⟨hNone, -⟩
                · obtain ⟨hStart, log, rfl⟩ := hWhole.split hBegun
                  exact .inr ⟨.here log hStart (by simp [hBlank, hExtends]) (by simp)⟩
                · simp [hNone] at hBegun
        · rcases ih hLater with ⟨hNext, log, rfl⟩ | ⟨⟨cut⟩⟩
          · -- The character begins the lexeme.
            rw [hMode] at hNext
            cases hBlank : Text.isBlank c with
            | true => simp [Mode.begin_blank hBlank, Mode.start?] at hNext
            | false =>
                rcases Mode.begin_whole hBlank lexer.place.location
                  (lexer.place.advance c).location with ⟨-, hBetween⟩ | ⟨hNone, hBegun⟩
                · rw [hBetween] at hNext
                  cases hNext
                · rw [hBegun] at hNext
                  rw [hWritten, hNone, List.append_nil]
                  exact .inr ⟨.here log (Option.some.inj hNext).symm
                    (by simp [hBlank, hExtends]) (by simp)⟩
          · exact .inr ⟨cut.cons⟩

end Lexer

end Progression
