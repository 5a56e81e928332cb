import Progression.Proofs.Seams

/-! Line ends. A line feed, a carriage return, and the two together are read alike: all three end the
line once, and no lexeme goes on beyond any of them. The one exception is a backslash in a text
literal, which takes the next character whatever it is. -/

namespace Progression

/-- The characters with a line feed for every line end. -/
def lineFeeds : List Char → List Char
  | [] => []
  | '\r' :: '\n' :: cs => '\n' :: lineFeeds cs
  | c :: cs => (if c = '\r' then '\n' else c) :: lineFeeds cs

/-- The text with a line feed for every line end. -/
def unifyLineEnds (source : String) : String := String.ofList (lineFeeds source.toList)

/-- Whether the next character belongs to a backslash. -/
def Mode.escaping : Mode → Bool
  | escape _ _ _ => true
  | _ => false

namespace Mode

theorem extend?_escaping {mode after : Mode} {flag : Bool} {here next : Location} {c : Char}
    {written : List Lexed} (h : mode.extend? flag here next c = some (written, after))
    (hAfter : after.escaping = true) : c = '\\' := by
  cases mode with
  | between => cases h
  | text start read =>
      simp only [extend?] at h
      split at h
      · cases h
        cases hAfter
      · split at h
        · cases h
          cases hAfter
        · split at h
          · next hBackslash => exact hBackslash
          · cases h
            cases hAfter
  | _ =>
      simp only [extend?] at h
      repeat' split at h
      all_goals cases h
      all_goals cases hAfter

theorem begin_escaping (here next : Location) (c : Char) :
    (begin here next c).2.escaping = false := by
  unfold begin
  repeat' split
  all_goals rfl

end Mode

namespace Lexer

/-- Only a backslash waits for the next character. -/
theorem step_escaping {lexer : Lexer} {c : Char} (h : (lexer.step c).2.mode.escaping = true) :
    c = '\\' := by
  simp only [step] at h
  split at h
  · next hExtend => exact Mode.extend?_escaping hExtend h
  · rw [Mode.begin_escaping] at h
    cases h

theorem step_place (lexer : Lexer) (c : Char) :
    (lexer.step c).2.place = lexer.place.advance c := by
  simp only [step]
  split <;> rfl

/-- Whether a carriage return has just been read matters to a line feed only. -/
theorem rest_afterReturn (location : Location) (flag afterReturn : Bool) (mode : Mode)
    {cs : List Char} (h : cs.head? ≠ some '\n') :
    (⟨⟨location, afterReturn⟩, flag, mode⟩ : Lexer).rest cs =
      (⟨⟨location, false⟩, flag, mode⟩ : Lexer).rest cs := by
  cases cs with
  | nil => rfl
  | cons c cs =>
      have hFeed : c ≠ '\n' := by simpa using h
      have hPlace : (⟨location, afterReturn⟩ : Place).advance c =
          (⟨location, false⟩ : Place).advance c := by
        simp [Place.advance, hFeed]
      have hStep : (⟨⟨location, afterReturn⟩, flag, mode⟩ : Lexer).step c =
          (⟨⟨location, false⟩, flag, mode⟩ : Lexer).step c := by
        simp only [step, hPlace]
      rw [rest_cons, rest_cons, hStep]

/-- A carriage return ends what a line feed ends. -/
theorem step_lineEnd {lexer : Lexer} (hMode : lexer.mode.escaping = false)
    (hPlace : lexer.place.afterReturn = false) :
    ∃ (written : List Lexed) (location : Location) (flag : Bool),
      lexer.step '\n' = (written, ⟨⟨location, false⟩, flag, .between⟩) ∧
      lexer.step '\r' = (written, ⟨⟨location, true⟩, flag, .between⟩) := by
  obtain ⟨⟨location, afterReturn⟩, flag, mode⟩ := lexer
  cases hPlace
  cases mode with
  | escape start read backslash => cases hMode
  | _ => exact ⟨_, _, _, rfl, rfl⟩

/-- Reading a text and reading it with a line feed for every line end write the same. -/
theorem rest_lineFeeds (cs : List Char) {lexer : Lexer} (hPlace : lexer.place.afterReturn = false)
    (hText : ¬['\\', '\r'] <:+: cs)
    (hMode : cs.head? = some '\r' → lexer.mode.escaping = false) :
    lexer.rest (lineFeeds cs) = lexer.rest cs := by
  fun_induction lineFeeds cs generalizing lexer with
  | case1 => rfl
  | case2 cs ih =>
      obtain ⟨written, location, flag, hFeed, hReturn⟩ := step_lineEnd (hMode rfl) hPlace
      -- The line feed after the carriage return is a blank that takes up no room.
      have hSilent : (⟨⟨location, true⟩, flag, .between⟩ : Lexer).step '\n' =
          ([], ⟨⟨location, false⟩, flag, .between⟩) := rfl
      have hRest : ¬['\\', '\r'] <:+: cs := fun hInfix =>
        hText (hInfix.trans (List.suffix_append ['\r', '\n'] cs).isInfix)
      rw [rest_cons, rest_cons, rest_cons, hFeed, hReturn, hSilent, List.nil_append,
        ih rfl hRest fun _ => rfl]
  | case3 c cs hPair ih =>
      have hRest : ¬['\\', '\r'] <:+: cs := fun hInfix =>
        hText (hInfix.trans (List.suffix_cons c cs).isInfix)
      rw [rest_cons, rest_cons]
      split
      · next hReturn =>
          subst hReturn
          obtain ⟨written, location, flag, hFeed, hReturn⟩ := step_lineEnd (hMode rfl) hPlace
          have hHead : cs.head? ≠ some '\n' := by
            intro hHead
            obtain ⟨rest, rfl⟩ := List.head?_eq_some_iff.mp hHead
            exact hPair rest rfl rfl
          rw [hFeed, hReturn, rest_afterReturn _ _ _ _ hHead, ih rfl hRest fun _ => rfl]
      · next hOther =>
          refine congrArg _ (ih ?_ hRest ?_)
          · rw [step_place, Bool.eq_false_iff]
            exact fun hReturn => hOther (Place.afterReturn_advance.mp hReturn)
          · intro hHead
            rw [Bool.eq_false_iff]
            intro hEscaping
            obtain ⟨rest, rfl⟩ := List.head?_eq_some_iff.mp hHead
            rw [step_escaping hEscaping] at hText
            exact hText (List.prefix_append ['\\', '\r'] rest).isInfix

end Lexer

theorem lex_unifyLineEnds {source : String} (h : ¬['\\', '\r'] <:+: source.toList) :
    lex (unifyLineEnds source) = lex source := by
  rw [lex_eq_rest, lex_eq_rest, unifyLineEnds, String.toList_ofList]
  exact Lexer.rest_lineFeeds _ rfl h fun _ => rfl

/-- Line ends are interchangeable: unless a carriage return stands right after a backslash, a text
with a line feed for every line end has the same lexemes at the same places, with the same reports,
and its run gives the same output and the same log. -/
theorem line_ends_interchangeable (config : Config) (source : String)
    (h : ¬['\\', '\r'] <:+: source.toList) :
    lexemes (lex (unifyLineEnds source)) = lexemes (lex source) ∧
    lexReports (lex (unifyLineEnds source)) = lexReports (lex source) ∧
    (evaluate config (unifyLineEnds source)).output = (evaluate config source).output ∧
    (evaluate config (unifyLineEnds source)).log = (evaluate config source).log := by
  have hLex := lex_unifyLineEnds h
  have hRun : evaluate config (unifyLineEnds source) = evaluate config source := by
    simp only [evaluate, Session.feed, parse, hLex]
  rw [hLex, hRun]
  exact ⟨rfl, rfl, rfl, rfl⟩

/-- An open text literal ends at a pair, a comment at a lone carriage return, and after a second one a
statement fails. -/
theorem line_ends_interchangeable_mixed :
    ∃ (config : Config) (source : String),
      source = "print \"a\r\nout 2 # two\r\rout 1 / 0" ∧
      ¬['\\', '\r'] <:+: source.toList ∧
      unifyLineEnds source = "print \"a\nout 2 # two\n\nout 1 / 0" ∧
      (evaluate config source).log.map Diagnostic.span =
        [⟨⟨1, 7⟩, ⟨1, 7⟩⟩, ⟨⟨4, 5⟩, ⟨4, 10⟩⟩] ∧
      (evaluate config (unifyLineEnds source)).log = (evaluate config source).log ∧
      (evaluate config (unifyLineEnds source)).output = (evaluate config source).output := by
  have hPair : ¬['\\', '\r'] <:+: "print \"a\r\nout 2 # two\r\rout 1 / 0".toList := by decide +kernel
  obtain ⟨-, -, hOutput, hLog⟩ := line_ends_interchangeable (Config.ofWorkers 2) _ hPair
  exact ⟨Config.ofWorkers 2, _, rfl, hPair, by decide +kernel, by decide +kernel, hLog, hOutput⟩

end Progression
