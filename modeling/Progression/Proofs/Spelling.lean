import Progression.Proofs.TextLiterals

/-! Spelling tokens. Written one to a line, the tokens of a text are read again as they were, although
their spelling keeps neither the blanks between them nor the escapes. What a lexer has read of a lexeme it
would read anywhere from the characters that the lexeme holds, as long as the tokens before it decide in
the same way whether a minus sign can belong to a number; and a line feed ends every lexeme that the end
of the text would end without a report. -/

namespace Progression

/-- The tokens among the items. -/
def tokens (items : List Lexed) : List Token := (lexemes items).map Lexeme.token

@[simp] theorem tokens_append (first second : List Lexed) :
    tokens (first ++ second) = tokens first ++ tokens second := by
  simp [tokens]

namespace Token

/-- Whether the last token that is no comment ends an operand, given whether the last one before this
token did. -/
def afterOperand (before : Bool) (token : Token) : Bool :=
  if token.isComment then before else token.endsOperand

theorem foldl_afterOperand (items : List Lexed) (flag : Bool) :
    items.foldl Lexed.afterOperand flag = (tokens items).foldl afterOperand flag := by
  induction items generalizing flag with
  | nil => rfl
  | cons item items ih =>
      cases item with
      | report d => exact ih flag
      | lexeme x => exact ih _

end Token

namespace Lexer

theorem step_afterOperand (lexer : Lexer) (c : Char) :
    (lexer.step c).2.afterOperand = (lexer.step c).1.foldl Lexed.afterOperand lexer.afterOperand := by
  simp only [step]
  split <;> rfl

theorem transduce_afterOperand (lexer : Lexer) (cs : List Char) :
    (transduce step lexer cs).2.afterOperand =
      (transduce step lexer cs).1.foldl Lexed.afterOperand lexer.afterOperand := by
  induction cs generalizing lexer with
  | nil => rfl
  | cons c cs ih => rw [transduce_cons, ih, step_afterOperand, List.foldl_append]

/-- What is written of a text that ends with the characters, apart from its end. -/
def items (lexer : Lexer) (cs : List Char) : List Lexed :=
  (transduce step lexer cs).1 ++
    (transduce step lexer cs).2.mode.close (transduce step lexer cs).2.place.location

theorem items_cons (lexer : Lexer) (c : Char) (cs : List Char) :
    lexer.items (c :: cs) = (lexer.step c).1 ++ (lexer.step c).2.items cs :=
  List.append_assoc _ _ _

theorem rest_eq_items (lexer : Lexer) (cs : List Char) :
    ∃ stop, lexer.rest cs = lexer.items cs ++ [.token .finish stop stop] :=
  ⟨_, (List.append_assoc _ _ _).symm⟩

/-- A line that could be the last one without a report is read as if it were. -/
theorem rest_line {lexer : Lexer} {cs : List Char} (h : lexReports (lexer.items cs) = [])
    (later : List Char) :
    ∃ place, lexer.rest (cs ++ '\n' :: later) = lexer.items cs ++
      (⟨place, (tokens (lexer.items cs)).foldl Token.afterOperand lexer.afterOperand, .between⟩ :
        Lexer).rest later := by
  obtain ⟨-, hClose⟩ := List.append_eq_nil_iff.mp ((lexReports_append _ _).symm.trans h)
  obtain ⟨flag, hFeed⟩ := step_lineFeed hClose
  have hFlag : flag = (tokens (lexer.items cs)).foldl Token.afterOperand lexer.afterOperand := by
    have hStep := step_afterOperand (transduce step lexer cs).2 '\n'
    rw [hFeed, transduce_afterOperand, ← List.foldl_append, Token.foldl_afterOperand] at hStep
    exact hStep
  refine ⟨(transduce step lexer cs).2.place.advance '\n', ?_⟩
  rw [rest_append, rest_cons, hFeed, ← List.append_assoc, hFlag]
  rfl

/-- The characters lead into a mode, from any place after a token that ends an operand or does not. -/
def LeadsTo (flag : Bool) (cs : List Char) (mode : Location → Mode) : Prop :=
  ∀ place : Place, transduce step ⟨place, flag, .between⟩ cs =
    ([], ⟨place.after cs, flag, mode place.location⟩)

end Lexer

/-- The token is read again from its spelling, after a token that ends an operand or does not. -/
def Token.Rereads (flag : Bool) (token : Token) : Prop :=
  ∀ place : Place, ∃ start stop,
    (⟨place, flag, .between⟩ : Lexer).items token.spelling.toList = [.token token start stop]

/-- Each of the tokens is read again, after those before it. -/
def Respelled (flag : Bool) : List Token → Prop
  | [] => True
  | token :: later => token.Rereads flag ∧ Respelled (token.afterOperand flag) later

/-- In none of the text literals stands a character that would need an escape. -/
def Unescaped (all : List Token) : Prop :=
  ∀ content, .text content ∈ all → ∀ c ∈ content.toList, Lexer.meansItself c = true

theorem respelled_append {flag : Bool} {first second : List Token} :
    Respelled flag (first ++ second) ↔
      Respelled flag first ∧ Respelled (first.foldl Token.afterOperand flag) second := by
  induction first generalizing flag with
  | nil => simp [Respelled]
  | cons token first ih => simp [Respelled, ih, and_assoc]

/-- Tokens written one to a line are read again. -/
theorem Respelled.rest {flag : Bool} {all : List Token} (h : Respelled flag all) (place : Place) :
    let reread := (⟨place, flag, .between⟩ : Lexer).rest
      (['\n'].intercalate (all.map fun token => token.spelling.toList))
    lexReports reread = [] ∧ tokens reread = all ++ [.finish] := by
  induction all generalizing flag place with
  | nil => exact ⟨rfl, rfl⟩
  | cons token later ih =>
      obtain ⟨hToken, hLater⟩ := h
      obtain ⟨start, stop, hItems⟩ := hToken place
      -- The last token is ended by the text and not by a line feed.
      cases later with
      | nil =>
          obtain ⟨finish, hRest⟩ :=
            (⟨place, flag, .between⟩ : Lexer).rest_eq_items token.spelling.toList
          simp only [List.map_cons, List.map_nil, List.intercalate_singleton, hRest, hItems]
          exact ⟨rfl, rfl⟩
      | cons next later =>
          have hReports : lexReports
              ((⟨place, flag, .between⟩ : Lexer).items token.spelling.toList) = [] := by
            rw [hItems]
            rfl
          obtain ⟨after, hRest⟩ := Lexer.rest_line hReports
            (['\n'].intercalate ((next :: later).map fun token => token.spelling.toList))
          obtain ⟨hSilent, hTokens⟩ := ih hLater after
          rw [hItems] at hRest
          simp only [List.map_cons, List.intercalate_cons_cons, List.append_assoc,
            List.singleton_append] at hRest hSilent hTokens ⊢
          rw [hRest]
          exact ⟨hSilent, congrArg (token :: ·) hTokens⟩

namespace Lexer.LeadsTo

variable {flag : Bool} {cs : List Char} {mode mode' : Location → Mode} {c : Char} {token : Token}

theorem of_begin (h : ∀ here next, Mode.begin here next c = ([], mode here)) :
    LeadsTo flag [c] mode := by
  intro place
  simp [transduce_cons, step, Mode.extend?, Mode.close, h]

theorem snoc (h : LeadsTo flag cs mode)
    (hNext : ∀ start here next, (mode start).extend? flag here next c = some ([], mode' start)) :
    LeadsTo flag (cs ++ [c]) mode' := by
  intro place
  simp [transduce_append, h place, transduce_cons, step, hNext]

theorem push {read : List Char} (h : LeadsTo flag read.reverse mode)
    (hNext : ∀ start here next, (mode start).extend? flag here next c = some ([], mode' start)) :
    LeadsTo flag (c :: read).reverse mode' := by
  rw [List.reverse_cons]
  exact h.snoc hNext

/-- The token is complete with the end of the text. -/
theorem rereads (h : LeadsTo flag cs mode) (hSpelling : token.spelling.toList = cs)
    (hClose : ∀ start stop, (mode start).close stop = [.token token start stop]) :
    token.Rereads flag := by
  intro place
  refine ⟨place.location, (place.after cs).location, ?_⟩
  rw [hSpelling, items, h place]
  exact hClose _ _

/-- The token is complete with its last character. -/
theorem rereads_snoc (h : LeadsTo flag cs mode) (hSpelling : token.spelling.toList = cs ++ [c])
    (hLast : ∀ start here next,
      (mode start).extend? flag here next c = some ([.token token start next], .between)) :
    token.Rereads flag := by
  intro place
  refine ⟨place.location, ((place.after cs).advance c).location, ?_⟩
  rw [hSpelling, items, transduce_append, h place]
  simp [transduce_cons, step, hLast, Mode.close]

/-- Characters that need no escape are read into a text literal as they are. -/
theorem text {read : List Char} (h : ∀ c ∈ read, meansItself c = true) :
    LeadsTo flag ('"' :: read.reverse) (.text · read) := by
  induction read with
  | nil => exact .of_begin fun here next => rfl
  | cons c read ih =>
      obtain ⟨hc, hRead⟩ := List.forall_mem_cons.mp h
      obtain ⟨hQuote, hBackslash, hFeed, hReturn⟩ := meansItself_iff.mp hc
      have hNext (start here next : Location) : (Mode.text start read).extend? flag here next c =
          some ([], .text start (c :: read)) := by
        simp [Mode.extend?, endsLine, hQuote, hBackslash, hFeed, hReturn]
      simpa using (ih hRead).snoc hNext

end Lexer.LeadsTo

namespace Mode

open Lexer

/-- The lexeme at hand is read again from the characters that it holds. Of a text literal this is known
when it is complete; a number with two dots never was a token. -/
def Rereads (flag : Bool) : Mode → Prop
  | between | text _ _ | escape _ _ _ => True
  | dots _ => False
  | minus _ => LeadsTo flag ['-'] minus
  | name _ read => LeadsTo flag read.reverse (name · read)
  | number _ read dotted => LeadsTo flag read.reverse (number · read dotted)
  | comment _ read => LeadsTo flag read.reverse (comment · read)

variable {mode mode' : Mode} {flag : Bool} {here next stop : Location} {c : Char}

theorem close_respelled (h : mode.Rereads flag) (hReports : lexReports (mode.close stop) = []) :
    Respelled flag (tokens (mode.close stop)) := by
  cases mode with
  | between => trivial
  | dots start => exact h.elim
  | text start read | escape start read backslash => cases hReports
  | minus start =>
      have hLeads : LeadsTo flag ['-'] minus := h
      have hSpelling : (Token.operator .sub).spelling.toList = ['-'] := by decide
      exact ⟨hLeads.rereads hSpelling fun _ _ => rfl, trivial⟩
  | name start read =>
      have hLeads : LeadsTo flag read.reverse (name · read) := h
      exact ⟨hLeads.rereads String.toList_ofList fun _ _ => rfl, trivial⟩
  | comment start read =>
      have hLeads : LeadsTo flag read.reverse (comment · read) := h
      exact ⟨hLeads.rereads String.toList_ofList fun _ _ => rfl, trivial⟩
  | number start read dotted =>
      have hLeads : LeadsTo flag read.reverse (number · read dotted) := h
      rw [close, numberLexed] at hReports
      split at hReports
      · cases hReports
      · next hLone =>
          obtain ⟨token, hSpelling, hClose⟩ : ∃ token : Token, token.spelling.toList = read.reverse ∧
              ∀ start stop, (number start read dotted).close stop = [.token token start stop] := by
            simp only [close, numberLexed, if_neg hLone]
            cases dotted with
            | true => exact ⟨.float _, String.toList_ofList, fun _ _ => rfl⟩
            | false => exact ⟨.int _, String.toList_ofList, fun _ _ => rfl⟩
          rw [hClose]
          exact ⟨hLeads.rereads hSpelling hClose, trivial⟩

/-- A character that is a token by itself is its spelling. -/
theorem rereads_single {token : Token} (hSingle : single? c = some token)
    (hBegin : ∀ here next, begin here next c = ([.token token here next], .between)) :
    token.Rereads flag := by
  have hSpellings : ∀ entry ∈ singles, entry.2.spelling.toList = [entry.1] := by decide
  intro place
  refine ⟨place.location, (place.advance c).location, ?_⟩
  rw [hSpellings _ (mem_singles hSingle)]
  simp [items, transduce_cons, step, extend?, close, hBegin]

/-- A character that begins a lexeme begins it everywhere. -/
theorem begun_respelled (mode : Location → Mode)
    (hBegin : ∀ here next, begin here next c = ([], mode here))
    (hMode : LeadsTo flag [c] mode → (mode here).Rereads flag) :
    Respelled flag (tokens (begin here next c).1) ∧
      (begin here next c).2.Rereads ((tokens (begin here next c).1).foldl Token.afterOperand flag) := by
  rw [hBegin]
  exact ⟨trivial, hMode (.of_begin hBegin)⟩

theorem begin_respelled (hReports : lexReports (begin here next c).1 = []) :
    Respelled flag (tokens (begin here next c).1) ∧
      (begin here next c).2.Rereads ((tokens (begin here next c).1).foldl Token.afterOperand flag) := by
  by_cases hBlank : Text.isBlank c = true
  · exact begun_respelled (fun _ => between) (by simp [begin, hBlank]) fun _ => trivial
  by_cases hName : beginsName c = true
  · exact begun_respelled (name · [c]) (by simp [begin, hBlank, hName]) id
  by_cases hNumber : beginsNumber c = true
  · exact begun_respelled (number · [c] (c = '.')) (by simp [begin, hBlank, hName, hNumber]) id
  by_cases hQuote : c = '"'
  · subst hQuote
    exact begun_respelled (text · []) (fun _ _ => rfl) fun _ => trivial
  by_cases hComment : c = '#'
  · subst hComment
    exact begun_respelled (comment · ['#']) (fun _ _ => rfl) id
  by_cases hMinus : c = '-'
  · subst hMinus
    exact begun_respelled minus (fun _ _ => rfl) id
  cases hSingle : single? c with
  | some token =>
      have hBegin (here next : Location) :
          begin here next c = ([.token token here next], .between) := by
        simp [begin, hBlank, hName, hNumber, hQuote, hComment, hMinus, hSingle]
      rw [hBegin]
      exact ⟨⟨rereads_single hSingle hBegin, trivial⟩, trivial⟩
  | none =>
      have hBegin : (begin here next c).1 =
          [.error (.invalidCharacter c) ⟨here, next⟩, .token .invalid here next] := by
        simp [begin, hBlank, hName, hNumber, hQuote, hComment, hMinus, hSingle]
      rw [hBegin] at hReports
      cases hReports

theorem extend?_respelled {written : List Lexed} (h : mode.Rereads flag)
    (hExtend : mode.extend? flag here next c = some (written, mode'))
    (hReports : lexReports written = []) (hTexts : Unescaped (tokens written)) :
    Respelled flag (tokens written) ∧
      mode'.Rereads ((tokens written).foldl Token.afterOperand flag) := by
  cases mode with
  | between => cases hExtend
  | dots start => exact h.elim
  | minus start =>
      have hLeads : LeadsTo flag ['-'] minus := h
      rw [extend?] at hExtend
      split at hExtend
      · next hArrow =>
          cases hExtend
          have hSpelling : Token.arrow.spelling.toList = ['-'] ++ ['>'] := by decide
          exact ⟨⟨hLeads.rereads_snoc hSpelling fun _ _ _ => rfl, trivial⟩, trivial⟩
      · next hArrow =>
          split at hExtend
          · next hSigned =>
              cases hExtend
              have hNumber : LeadsTo flag ['-', c] (number · [c, '-'] (c = '.')) :=
                hLeads.snoc fun _ _ _ => by simp only [extend?, if_neg hArrow, if_pos hSigned]
              exact ⟨trivial, hNumber⟩
          · cases hExtend
  | name start read =>
      have hLeads : LeadsTo flag read.reverse (name · read) := h
      rw [extend?] at hExtend
      split at hExtend
      · next hContinues =>
          cases hExtend
          have hLonger : LeadsTo flag (c :: read).reverse (name · (c :: read)) :=
            hLeads.push fun _ _ _ => by simp only [extend?, if_pos hContinues]
          exact ⟨trivial, hLonger⟩
      · cases hExtend
  | number start read dotted =>
      have hLeads : LeadsTo flag read.reverse (number · read dotted) := h
      rw [extend?] at hExtend
      split at hExtend
      · next hDigit =>
          cases hExtend
          have hLonger : LeadsTo flag (c :: read).reverse (number · (c :: read) dotted) :=
            hLeads.push fun _ _ _ => by simp only [extend?, if_pos hDigit]
          exact ⟨trivial, hLonger⟩
      · next hDigit =>
          split at hExtend
          · next hDot =>
              split at hExtend
              · cases hExtend
                cases hReports
              · next hFirst =>
                  cases hExtend
                  have hLonger : LeadsTo flag (c :: read).reverse (number · (c :: read) true) :=
                    hLeads.push fun _ _ _ => by
                      simp only [extend?, if_neg hDigit, if_pos hDot, if_neg hFirst]
                  exact ⟨trivial, hLonger⟩
          · cases hExtend
  | text start read =>
      rw [extend?] at hExtend
      split at hExtend
      · next hQuote =>
          -- Only now it is known that no escape was needed for what has been read.
          cases hExtend
          have hRead : ∀ c ∈ read, meansItself c = true := by
            intro c hc
            exact hTexts _ List.mem_cons_self c (by simpa using hc)
          have hSpelling : (Token.text (String.ofList read.reverse)).spelling.toList =
              '"' :: read.reverse ++ ['"'] := by
            simp [Token.spelling]
          exact ⟨⟨(LeadsTo.text hRead).rereads_snoc hSpelling fun _ _ _ => rfl, trivial⟩, trivial⟩
      split at hExtend
      · cases hExtend
        cases hReports
      split at hExtend
      · cases hExtend
        exact ⟨trivial, trivial⟩
      · cases hExtend
        exact ⟨trivial, trivial⟩
  | escape start read backslash =>
      rw [extend?] at hExtend
      split at hExtend
      · cases hExtend
        exact ⟨trivial, trivial⟩
      · cases hExtend
        cases hReports
  | comment start read =>
      have hLeads : LeadsTo flag read.reverse (comment · read) := h
      rw [extend?] at hExtend
      split at hExtend
      · cases hExtend
      · next hLine =>
          cases hExtend
          have hLonger : LeadsTo flag (c :: read).reverse (comment · (c :: read)) :=
            hLeads.push fun _ _ _ => by simp only [extend?, if_neg hLine]
          exact ⟨trivial, hLonger⟩

end Mode

theorem Unescaped.of_append {first second : List Token} (h : Unescaped (first ++ second)) :
    Unescaped first ∧ Unescaped second :=
  ⟨fun content hMem => h content (List.mem_append_left _ hMem),
    fun content hMem => h content (List.mem_append_right _ hMem)⟩

namespace Lexer

theorem step_respelled {lexer : Lexer} {c : Char} (h : lexer.mode.Rereads lexer.afterOperand)
    (hReports : lexReports (lexer.step c).1 = []) (hTexts : Unescaped (tokens (lexer.step c).1)) :
    Respelled lexer.afterOperand (tokens (lexer.step c).1) ∧
      (lexer.step c).2.mode.Rereads (lexer.step c).2.afterOperand := by
  rw [step_afterOperand, Token.foldl_afterOperand]
  cases hExtend : lexer.mode.extend? lexer.afterOperand lexer.place.location
      (lexer.place.advance c).location c with
  | some result =>
      simp only [step, hExtend] at hReports hTexts ⊢
      exact Mode.extend?_respelled h hExtend hReports hTexts
  | none =>
      simp only [step, hExtend, lexReports_append, List.append_eq_nil_iff, tokens_append,
        List.foldl_append, respelled_append] at hReports ⊢
      obtain ⟨hBegun, hMode⟩ := Mode.begin_respelled hReports.2
      exact ⟨⟨Mode.close_respelled h hReports.1, hBegun⟩, hMode⟩

/-- All tokens of a text about which nothing is reported are read again from their spellings. -/
theorem items_respelled {lexer : Lexer} {cs : List Char} (h : lexer.mode.Rereads lexer.afterOperand)
    (hReports : lexReports (lexer.items cs) = []) (hTexts : Unescaped (tokens (lexer.items cs))) :
    Respelled lexer.afterOperand (tokens (lexer.items cs)) := by
  induction cs generalizing lexer with
  | nil => exact Mode.close_respelled h hReports
  | cons c cs ih =>
      rw [items_cons, lexReports_append, List.append_eq_nil_iff] at hReports
      rw [items_cons, tokens_append] at hTexts
      obtain ⟨hStep, hLater⟩ := hTexts.of_append
      obtain ⟨hWritten, hMode⟩ := step_respelled h hReports.1 hStep
      have hRest := ih hMode hReports.2 hLater
      rw [step_afterOperand, Token.foldl_afterOperand] at hRest
      rw [items_cons, tokens_append, respelled_append]
      exact ⟨hWritten, hRest⟩

end Lexer

/-- The tokens, each on a line of its own. -/
def spellOut (all : List Token) : String := "\n".intercalate (all.map Token.spelling)

/-- Spelling tokens and reading them again changes nothing. If nothing is reported about a text and none of
its text literals stands for a quote, a backslash or a line end, then all its tokens but the end of the
text, written one to a line, are read as the same tokens in the same order, comments included, and nothing
is reported about them either. -/
theorem spelling_rereads (source : String) (hReports : lexReports (lex source) = [])
    (hTexts : ∀ content, .text content ∈ tokens (lex source) →
      ∀ c ∈ content.toList, c ≠ '"' ∧ c ≠ '\\' ∧ c ≠ '\n' ∧ c ≠ '\r') :
    ∃ all, tokens (lex source) = all ++ [.finish] ∧ lexReports (lex (spellOut all)) = [] ∧
      tokens (lex (spellOut all)) = all ++ [.finish] := by
  obtain ⟨stop, hLex⟩ := Lexer.first.rest_eq_items source.toList
  rw [← lex_eq_rest] at hLex
  have hTokens : tokens (lex source) =
      tokens (Lexer.first.items source.toList) ++ [.finish] := by
    rw [hLex, tokens_append]
    rfl
  have hSilent : lexReports (Lexer.first.items source.toList) = [] := by
    rw [hLex, lexReports_append] at hReports
    exact (List.append_eq_nil_iff.mp hReports).1
  have hUnescaped : Unescaped (tokens (Lexer.first.items source.toList)) := by
    intro content hMem c hc
    exact Lexer.meansItself_iff.mpr
      (hTexts content (hTokens ▸ List.mem_append_left _ hMem) c hc)
  have hFirst : Lexer.first.mode.Rereads Lexer.first.afterOperand := trivial
  have hReread := (Lexer.items_respelled hFirst hSilent hUnescaped).rest .first
  refine ⟨_, hTokens, ?_⟩
  rw [lex_eq_rest, spellOut, String.toList_intercalate, List.map_map]
  exact hReread

/-- A minus sign belongs to a number after `=`, with a comment in between, and to none after a name or a
number; the escape of a tab is written out. -/
theorem spelling_rereads_signs :
    lexReports (lex "var x = #-1\n-1 out x -1- .5 print \"a\\tb\"") = [] ∧
      spellOut [.identifier "var", .identifier "x", .assign, .comment "#-1", .int "-1",
          .identifier "out", .identifier "x", .operator .sub, .int "1", .operator .sub, .float ".5",
          .identifier "print", .text "a\tb"] =
        "var\nx\n=\n#-1\n-1\nout\nx\n-\n1\n-\n.5\nprint\n\"a\tb\"" ∧
      tokens (lex "var\nx\n=\n#-1\n-1\nout\nx\n-\n1\n-\n.5\nprint\n\"a\tb\"") =
        tokens (lex "var x = #-1\n-1 out x -1- .5 print \"a\\tb\"") := by
  have hReports : lexReports (lex "var x = #-1\n-1 out x -1- .5 print \"a\\tb\"") = [] := by
    decide +kernel
  have hTokens : tokens (lex "var x = #-1\n-1 out x -1- .5 print \"a\\tb\"") =
      [.identifier "var", .identifier "x", .assign, .comment "#-1", .int "-1", .identifier "out",
        .identifier "x", .operator .sub, .int "1", .operator .sub, .float ".5", .identifier "print",
        .text "a\tb"] ++ [.finish] := by
    decide +kernel
  have hSpelled : spellOut [.identifier "var", .identifier "x", .assign, .comment "#-1", .int "-1",
        .identifier "out", .identifier "x", .operator .sub, .int "1", .operator .sub, .float ".5",
        .identifier "print", .text "a\tb"] =
      "var\nx\n=\n#-1\n-1\nout\nx\n-\n1\n-\n.5\nprint\n\"a\tb\"" := by
    decide +kernel
  have hPlain : "a\tb".toList.all Lexer.meansItself = true := by decide +kernel
  obtain ⟨all, hAll, -, hReread⟩ := spelling_rereads _ hReports (by
    intro content hMem c hc
    rw [hTokens] at hMem
    obtain rfl : content = "a\tb" := by simpa using hMem
    exact Lexer.meansItself_iff.mp (List.all_eq_true.mp hPlain c hc))
  rw [hTokens] at hAll
  rw [← List.append_cancel_right hAll, hSpelled] at hReread
  exact ⟨hReports, hSpelled, hReread.trans hTokens.symm⟩

end Progression
