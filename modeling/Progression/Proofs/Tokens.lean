import Progression.Proofs.Tiling

/-! What holds of all tokens of a text. Names and numbers are read character by character, and no
other token depends on the characters that they can be made of. So a property of names and numbers
holds of every token that the lexer writes if it comes about while they are read. -/

namespace Progression

open Lexer

/-- Whether the token is a name or a number. -/
def Token.isWord : Token → Bool
  | identifier _ | int _ | float _ => true
  | _ => false

/-- Whether a name or a number is being read. -/
def Mode.isWord : Mode → Bool
  | name _ _ | number _ _ _ => true
  | _ => false

/-- All tokens among the items have the property. -/
def AllTokens (P : Token → Prop) (items : List Lexed) : Prop := ∀ x ∈ lexemes items, P x.token

section AllTokens

variable {P : Token → Prop}

@[simp] theorem allTokens_nil : AllTokens P [] := by simp [AllTokens, lexemes]

@[simp] theorem allTokens_error (cause : LexError) (span : Span) (items : List Lexed) :
    AllTokens P (.error cause span :: items) ↔ AllTokens P items := by
  simp [AllTokens, lexemes, Lexed.error, Lexed.lexeme?]

@[simp] theorem allTokens_token (token : Token) (start stop : Location) (items : List Lexed) :
    AllTokens P (.token token start stop :: items) ↔ P token ∧ AllTokens P items := by
  simp [AllTokens, lexemes, Lexed.token, Lexed.lexeme?]

@[simp] theorem allTokens_append (first second : List Lexed) :
    AllTokens P (first ++ second) ↔ AllTokens P first ∧ AllTokens P second := by
  simp [AllTokens, or_imp, forall_and]

end AllTokens

/-- How a property of names and numbers comes about: `M` holds of what is read of them, from the first
character on, and gives `P` when it is complete. -/
structure Lexer.Forms (P : Token → Prop) (M : Mode → Prop) : Prop where
  other (token : Token) : token.isWord = false → P token
  pause (mode : Mode) : mode.isWord = false → M mode
  name_first {c : Char} (start : Location) : beginsName c = true → M (.name start [c])
  name_next {c : Char} {start : Location} {read : List Char} :
    continuesName c = true → M (.name start read) → M (.name start (c :: read))
  name_close {start : Location} {read : List Char} :
    M (.name start read) → P (.identifier (String.ofList read.reverse))
  number_first {c : Char} (start : Location) (negative : Bool) : beginsNumber c = true →
    M (.number start (c :: if negative then ['-'] else []) (decide (c = '.')))
  number_digit {c : Char} {start : Location} {read : List Char} {dotted : Bool} :
    c.isDigit = true → M (.number start read dotted) → M (.number start (c :: read) dotted)
  number_dot {start : Location} {read : List Char} :
    M (.number start read false) → M (.number start ('.' :: read) true)
  number_close {start : Location} {read : List Char} {dotted : Bool} (stop : Location) :
    M (.number start read dotted) → AllTokens P (Mode.numberLexed read.reverse dotted start stop)

namespace Lexer.Forms

variable {P : Token → Prop} {M : Mode → Prop} (h : Forms P M)

include h

theorem close {mode : Mode} (hMode : M mode) (stop : Location) : AllTokens P (mode.close stop) := by
  cases mode with
  | between => exact allTokens_nil
  | name start read => simpa [Mode.close] using h.name_close hMode
  | number start read dotted => exact h.number_close stop hMode
  | minus | dots | text | escape | comment => simpa [Mode.close] using h.other _ rfl

theorem begin (here next : Location) (c : Char) :
    AllTokens P (Mode.begin here next c).1 ∧ M (Mode.begin here next c).2 := by
  unfold Mode.begin
  split
  · exact ⟨allTokens_nil, h.pause _ rfl⟩
  split
  · next hName => exact ⟨allTokens_nil, h.name_first here hName⟩
  split
  · next hNumber => exact ⟨allTokens_nil, h.number_first here false hNumber⟩
  split
  · exact ⟨allTokens_nil, h.pause _ rfl⟩
  split
  · exact ⟨allTokens_nil, h.pause _ rfl⟩
  split
  · exact ⟨allTokens_nil, h.pause _ rfl⟩
  split
  · next token hSingle =>
      have hAll : ∀ entry ∈ singles, entry.2.isWord = false := by simp [singles, Token.isWord]
      exact ⟨by simpa using h.other _ (hAll _ (mem_singles hSingle)), h.pause _ rfl⟩
  · exact ⟨by simpa using h.other .invalid rfl, h.pause _ rfl⟩

theorem extend? {mode mode' : Mode} {afterOperand : Bool} {here next : Location} {c : Char}
    {written : List Lexed} (hMode : M mode)
    (hExtend : mode.extend? afterOperand here next c = some (written, mode')) :
    AllTokens P written ∧ M mode' := by
  cases mode with
  | between => cases hExtend
  | minus start =>
      rw [Mode.extend?] at hExtend
      split at hExtend
      · cases hExtend
        exact ⟨by simpa using h.other .arrow rfl, h.pause _ rfl⟩
      split at hExtend
      · next hNumber =>
          cases hExtend
          rw [Bool.and_eq_true] at hNumber
          exact ⟨allTokens_nil, h.number_first start true hNumber.1⟩
      · cases hExtend
  | name start read =>
      rw [Mode.extend?] at hExtend
      split at hExtend
      · next hName =>
          cases hExtend
          exact ⟨allTokens_nil, h.name_next hName hMode⟩
      · cases hExtend
  | number start read dotted =>
      rw [Mode.extend?] at hExtend
      split at hExtend
      · next hDigit =>
          cases hExtend
          exact ⟨allTokens_nil, h.number_digit hDigit hMode⟩
      split at hExtend
      · next hDot =>
          subst hDot
          split at hExtend
          · cases hExtend
            exact ⟨by simp, h.pause _ rfl⟩
          · next hUndotted =>
              cases hExtend
              rw [Bool.not_eq_true] at hUndotted
              exact ⟨allTokens_nil, h.number_dot (hUndotted ▸ hMode)⟩
      · cases hExtend
  | text start read =>
      have hText := h.other (.text (String.ofList read.reverse)) rfl
      rw [Mode.extend?] at hExtend
      repeat' split at hExtend
      all_goals cases hExtend
      all_goals exact ⟨by simp [hText], h.pause _ rfl⟩
  | dots | escape | comment =>
      rw [Mode.extend?] at hExtend
      repeat' split at hExtend
      all_goals cases hExtend
      all_goals exact ⟨by simp, h.pause _ rfl⟩

theorem step {lexer : Lexer} (hMode : M lexer.mode) (c : Char) :
    AllTokens P (lexer.step c).1 ∧ M (lexer.step c).2.mode := by
  cases hExtend : lexer.mode.extend? lexer.afterOperand lexer.place.location
      (lexer.place.advance c).location c with
  | some result =>
      simp only [Lexer.step, hExtend]
      exact h.extend? hMode hExtend
  | none =>
      obtain ⟨hBegun, hNext⟩ := h.begin lexer.place.location (lexer.place.advance c).location c
      simp only [Lexer.step, hExtend]
      exact ⟨by simpa using ⟨h.close hMode _, hBegun⟩, hNext⟩

/-- The property holds of every token of a text. -/
theorem lex (source : String) : AllTokens P (lex source) := by
  have hStep (written : List Lexed) (lexer : Lexer) (c : Char)
      (hBefore : AllTokens P written ∧ M lexer.mode) :
      AllTokens P (written ++ (lexer.step c).1) ∧ M (lexer.step c).2.mode := by
    obtain ⟨hWritten, hNext⟩ := h.step hBefore.2 c
    exact ⟨by simpa using ⟨hBefore.1, hWritten⟩, hNext⟩
  obtain ⟨hWritten, hMode⟩ := transduce_history (fun written (lexer : Lexer) =>
    AllTokens P written ∧ M lexer.mode) hStep source.toList (s := Lexer.first)
    ⟨allTokens_nil, h.pause .between rfl⟩
  have hClosed := h.close hMode
    (transduce Lexer.step Lexer.first source.toList).2.place.location
  have hFinish := h.other .finish rfl
  simpa [Progression.lex, Lexer.finish, hFinish] using ⟨hWritten, hClosed⟩

end Lexer.Forms

end Progression
