import Progression.Proofs.Stages

/-! Reading two texts that are joined with a line feed. If nothing is wrong with the first and the
second begins with a statement, the line feed separates them for the lexer and the first word of the
second text for the parser. What is read of the second text then is what is read of it alone, further
down. -/

namespace Progression

/-- How many line ends there are in a text. A carriage return and the line feed directly after it are
one. -/
def lineBreaks : List Char → Nat
  | [] => 0
  | '\r' :: '\n' :: cs => lineBreaks cs + 1
  | c :: cs => if Lexer.endsLine c then lineBreaks cs + 1 else lineBreaks cs

/-- The location a number of lines further down. -/
def Location.down (lines : Nat) (location : Location) : Location :=
  ⟨location.line + lines, location.column⟩

theorem Location.down_strictMono (lines : Nat) : StrictMono (Location.down lines) := by
  intro a b h
  rw [lt_iff] at h ⊢
  simp only [down]
  omega

namespace Place

/-- The place a number of lines further down. -/
def down (lines : Nat) (place : Place) : Place :=
  ⟨place.location.down lines, place.afterReturn⟩

theorem down_advance (lines : Nat) (place : Place) (c : Char) :
    (place.down lines).advance c = (place.advance c).down lines := by
  obtain ⟨⟨line, column⟩, afterReturn⟩ := place
  unfold advance
  by_cases hFeed : c = '\n'
  · rw [if_pos hFeed, if_pos hFeed]
    cases afterReturn with
    | true => rfl
    | false => simp [down, Location.down, Nat.add_right_comm]
  · rw [if_neg hFeed, if_neg hFeed]
    by_cases hReturn : c = '\r'
    · rw [if_pos hReturn, if_pos hReturn]
      simp [down, Location.down, Nat.add_right_comm]
    · rw [if_neg hReturn, if_neg hReturn]
      rfl

theorem afterReturn_advance {place : Place} {c : Char} :
    (place.advance c).afterReturn = true ↔ c = '\r' := by
  unfold advance
  split
  · next hFeed => split <;> simp [hFeed]
  · split
    · next hReturn => simp [hReturn]
    · next hOther => simp [hOther]

/-- Every line end moves a place one line down. -/
theorem line_after (cs : List Char) (place : Place)
    (h : place.afterReturn = true → cs.head? ≠ some '\n') :
    (place.after cs).location.line = place.location.line + lineBreaks cs := by
  fun_induction lineBreaks cs generalizing place with
  | case1 => rfl
  | case2 cs ih =>
      rw [after_cons, after_cons, ih]
      · simp only [advance, if_true, Char.reduceEq, if_false]
        omega
      · simp [advance]
  | case3 c cs hPair hEnds ih =>
      have hLine : (place.advance c).location.line = place.location.line + 1 := by
        by_cases hFeed : c = '\n'
        · have hFresh : place.afterReturn = false := by
            rw [Bool.eq_false_iff]
            exact fun hReturn => h hReturn (by rw [hFeed]; rfl)
          simp [advance, hFeed, hFresh]
        · have hReturn : c = '\r' := by simpa [Lexer.endsLine, hFeed] using hEnds
          simp [advance, hReturn]
      rw [after_cons, ih, hLine]
      · omega
      · intro hReturn hHead
        obtain ⟨rest, rfl⟩ := List.head?_eq_some_iff.mp hHead
        exact hPair rest (afterReturn_advance.mp hReturn) rfl
  | case4 c cs hPair hEnds ih =>
      have hOther : c ≠ '\n' ∧ c ≠ '\r' := by simpa [Lexer.endsLine] using hEnds
      rw [after_cons, ih]
      · simp [advance, hOther]
      · simp [advance, hOther]

/-- Right after a carriage return a new line begins. -/
theorem column_of_afterReturn (cs : List Char) {place : Place}
    (h : place.afterReturn = true → place.location.column = 1) :
    (place.after cs).afterReturn = true → (place.after cs).location.column = 1 := by
  induction cs generalizing place with
  | nil => exact h
  | cons c cs ih =>
      refine ih fun hReturn => ?_
      rw [afterReturn_advance.mp hReturn]
      rfl

/-- After a line feed the place is that of the beginning, as many lines down as there are line
ends. -/
theorem after_lineFeed (cs : List Char) :
    Place.first.after (cs ++ ['\n']) = Place.first.down (lineBreaks (cs ++ ['\n'])) := by
  have hLine := line_after (cs ++ ['\n']) Place.first nofun
  have hColumn := column_of_afterReturn cs (nofun : Place.first.afterReturn = true → _)
  rw [after_append, after_cons, after_nil] at hLine ⊢
  generalize Place.first.after cs = place at hLine hColumn ⊢
  obtain ⟨⟨line, column⟩, afterReturn⟩ := place
  cases afterReturn with
  | true =>
      cases hColumn rfl
      exact congrArg (fun line => (⟨⟨line, 1⟩, false⟩ : Place)) hLine
  | false => exact congrArg (fun line => (⟨⟨line, 1⟩, false⟩ : Place)) hLine

end Place

namespace Lexer

/-- The lexer at the place a number of lines further down. -/
def down (lines : Nat) (lexer : Lexer) : Lexer :=
  ⟨lexer.place.down lines, lexer.afterOperand, lexer.mode.relocate (Location.down lines)⟩

theorem step_down (lines : Nat) (lexer : Lexer) (c : Char) :
    (lexer.down lines).step c =
      Prod.map (List.map (Lexed.relocate (Location.down lines))) (down lines) (lexer.step c) := by
  have hExtend := lexer.mode.extend?_relocate (f := Location.down lines) lexer.afterOperand
    lexer.place.location (lexer.place.advance c).location c
  simp only [step, down, Place.down_advance]
  simp only [Place.down, hExtend, Mode.close_relocate, Mode.begin_relocate]
  cases lexer.mode.extend? lexer.afterOperand lexer.place.location
      (lexer.place.advance c).location c with
  | some result => simp [Lexed.foldl_afterOperand_relocate, Place.down, down]
  | none =>
      simp only [Option.map_none, Prod.map, ← List.map_append, Lexed.foldl_afterOperand_relocate,
        Place.down, down]

/-- What is written from here to the end of the text. -/
def rest (lexer : Lexer) (cs : List Char) : List Lexed :=
  (transduce step lexer cs).1 ++ (transduce step lexer cs).2.finish

theorem rest_append (lexer : Lexer) (cs ds : List Char) :
    lexer.rest (cs ++ ds) = (transduce step lexer cs).1 ++ (transduce step lexer cs).2.rest ds := by
  rw [rest, transduce_append, List.append_assoc, rest]

theorem rest_cons (lexer : Lexer) (c : Char) (cs : List Char) :
    lexer.rest (c :: cs) = (lexer.step c).1 ++ (lexer.step c).2.rest cs :=
  List.append_assoc _ _ _

theorem rest_down (lines : Nat) (lexer : Lexer) (cs : List Char) :
    (lexer.down lines).rest cs =
      (lexer.rest cs).map (Lexed.relocate (Location.down lines)) := by
  induction cs generalizing lexer with
  | nil =>
      simp only [rest, transduce_nil, List.nil_append, finish, List.map_append]
      rw [← Mode.close_relocate]
      rfl
  | cons c cs ih =>
      rw [rest_cons, rest_cons, step_down, List.map_append, ← ih]
      rfl

end Lexer

/-- Whether a program can begin with the token. -/
def Token.opens (token : Token) : Bool := token.startsStatement || token.isFinish

/-- The first lexeme that is no comment. -/
def opening? (items : List Lexed) : Option Lexeme :=
  (lexemes items).find? fun x => !x.token.isComment

/-- Whether the first lexeme that is no comment begins a statement or is the end of the text. -/
def opensProgram (items : List Lexed) : Bool := (opening? items).any fun x => x.token.opens

/-- The token is neither a comment nor one that a program can begin with. -/
def Token.Inner (token : Token) : Prop := token.isComment = false ∧ token.opens = false

/-- All that is written of a lexeme: the reports about it, and it is no comment and cannot begin a
program. -/
def Lexed.Refuses (written : List Lexed) : Prop :=
  ∃ (log : Log) (x : Lexeme), written = log.map report ++ [lexeme x] ∧ x.token.Inner

theorem Token.operator?_of_opens {token : Token} (h : token.opens = true) :
    token.operator? = none := by
  cases token with
  | operator op => cases h
  | _ => rfl

theorem opensProgram_reports (log : Log) (items : List Lexed) :
    opensProgram (log.map .report ++ items) = opensProgram items := by
  have hNone : lexemes (log.map .report) = [] := by
    simp [lexemes, List.filterMap_map, Function.comp_def, Lexed.lexeme?]
  rw [opensProgram, opening?, lexemes_append, hNone]
  rfl

theorem opensProgram_comment {x : Lexeme} (hx : x.token.isComment = true) (items : List Lexed) :
    opensProgram (.lexeme x :: items) = opensProgram items := by
  simp [opensProgram, opening?, lexemes, Lexed.lexeme?, hx]

theorem opensProgram_comments {comments : List Lexeme}
    (h : ∀ x ∈ comments, x.token.isComment = true) (items : List Lexed) :
    opensProgram (comments.map .lexeme ++ items) = opensProgram items := by
  induction comments with
  | nil => rfl
  | cons x comments ih =>
      obtain ⟨hx, hRest⟩ := List.forall_mem_cons.mp h
      rw [List.map_cons, List.cons_append, opensProgram_comment hx, ih hRest]

theorem opensProgram_lexeme {x : Lexeme} (hx : x.token.isComment = false) (items : List Lexed) :
    opensProgram (.lexeme x :: items) = x.token.opens := by
  simp [opensProgram, opening?, lexemes, Lexed.lexeme?, hx]

theorem Lexed.Refuses.opensProgram_append {written : List Lexed} (h : Refuses written)
    (items : List Lexed) : opensProgram (written ++ items) = false := by
  obtain ⟨log, x, rfl, hComment, hOpens⟩ := h
  rw [List.append_assoc, opensProgram_reports, List.singleton_append,
    opensProgram_lexeme hComment, hOpens]

namespace Mode

/-- What is being read can only become a lexeme that does not begin a program. -/
def Refuses : Mode → Prop
  | minus _ | number _ _ _ | dots _ | text _ _ | escape _ _ _ => True
  | between | name _ _ | comment _ _ => False

theorem close_refuses {mode : Mode} (h : mode.Refuses) (stop : Location) :
    Lexed.Refuses (mode.close stop) := by
  cases mode with
  | minus start => exact ⟨[], _, rfl, rfl, rfl⟩
  | number start read dotted =>
      simp only [close, numberLexed]
      split
      · exact ⟨[_], _, rfl, rfl, rfl⟩
      split
      · exact ⟨[], _, rfl, rfl, rfl⟩
      · exact ⟨[], _, rfl, rfl, rfl⟩
  | dots start => exact ⟨[], _, rfl, rfl, rfl⟩
  | text start read => exact ⟨[_], _, rfl, rfl, rfl⟩
  | escape start read backslash => exact ⟨[_], _, rfl, rfl, rfl⟩
  | between | name | comment => exact absurd h id

theorem extend?_refuses {mode : Mode} (h : mode.Refuses) {flag : Bool} {here next : Location}
    {c : Char} {written : List Lexed} {after : Mode}
    (hExtend : mode.extend? flag here next c = some (written, after)) :
    Lexed.Refuses written ∨ (∃ log : Log, written = log.map .report) ∧ after.Refuses := by
  cases mode with
  | between | name | comment => exact absurd h id
  | minus start =>
      simp only [extend?] at hExtend
      split at hExtend
      · cases hExtend
        exact .inl ⟨[], _, rfl, rfl, rfl⟩
      · split at hExtend
        · cases hExtend
          exact .inr ⟨⟨[], rfl⟩, trivial⟩
        · cases hExtend
  | number start read dotted =>
      simp only [extend?] at hExtend
      split at hExtend
      · cases hExtend
        exact .inr ⟨⟨[], rfl⟩, trivial⟩
      · split at hExtend
        · split at hExtend
          · cases hExtend
            exact .inr ⟨⟨[_], rfl⟩, trivial⟩
          · cases hExtend
            exact .inr ⟨⟨[], rfl⟩, trivial⟩
        · cases hExtend
  | dots start =>
      simp only [extend?] at hExtend
      split at hExtend
      · cases hExtend
        exact .inr ⟨⟨[], rfl⟩, trivial⟩
      · cases hExtend
  | text start read =>
      simp only [extend?] at hExtend
      split at hExtend
      · cases hExtend
        exact .inl ⟨[], _, rfl, rfl, rfl⟩
      · split at hExtend
        · cases hExtend
          exact .inl ⟨[_], _, rfl, rfl, rfl⟩
        · split at hExtend
          · cases hExtend
            exact .inr ⟨⟨[], rfl⟩, trivial⟩
          · cases hExtend
            exact .inr ⟨⟨[], rfl⟩, trivial⟩
  | escape start read backslash =>
      simp only [extend?] at hExtend
      split at hExtend
      · cases hExtend
        exact .inr ⟨⟨[], rfl⟩, trivial⟩
      · cases hExtend
        exact .inr ⟨⟨[_], rfl⟩, trivial⟩

theorem single?_inner {c : Char} {token : Token} (h : Lexer.single? c = some token) :
    token.Inner := by
  have hAll : ∀ entry ∈ Lexer.singles, entry.2.Inner := by
    simp [Lexer.singles, Token.Inner, Token.isComment, Token.opens, Token.startsStatement,
      Token.isFinish]
  exact hAll _ (Lexer.mem_singles h)

/-- A character that no lexeme takes is read silently, or is a lexeme that begins no program. -/
theorem begin_refuses (here next : Location) (c : Char) :
    (begin here next c).1 = [] ∨ Lexed.Refuses (begin here next c).1 := by
  unfold begin
  split
  · exact .inl rfl
  split
  · exact .inl rfl
  split
  · exact .inl rfl
  split
  · exact .inl rfl
  split
  · exact .inl rfl
  split
  · exact .inl rfl
  split
  · next token hSingle => exact .inr ⟨[], _, rfl, single?_inner hSingle⟩
  · exact .inr ⟨[_], _, rfl, rfl, rfl⟩

end Mode

namespace Lexer

/-- A program does not begin in the middle of a lexeme that cannot begin one. -/
theorem opensProgram_of_refuses {lexer : Lexer} (h : lexer.mode.Refuses) (cs : List Char) :
    opensProgram (lexer.rest cs) = false := by
  induction cs generalizing lexer with
  | nil => exact (Mode.close_refuses h _).opensProgram_append _
  | cons c cs ih =>
      rw [rest_cons, step]
      dsimp only
      split
      · next written mode hExtend =>
          rcases Mode.extend?_refuses h hExtend with hDone | ⟨⟨log, rfl⟩, hMode⟩
          · exact hDone.opensProgram_append _
          · rw [opensProgram_reports]
            exact ih hMode
      · rw [List.append_assoc]
        exact (Mode.close_refuses h _).opensProgram_append _

/-- What is read from here on begins with comments and a lexeme that a program can begin with, and
does not depend on the token before it. -/
structure Opened (lexer : Lexer) (cs : List Char) : Prop where
  shape : ∃ (comments : List Lexeme) (x : Lexeme) (tail : List Lexed),
    lexer.rest cs = comments.map .lexeme ++ .lexeme x :: tail ∧
      (∀ y ∈ comments, y.token.isComment = true) ∧ x.token.isComment = false ∧
        x.token.opens = true
  free : ∀ flag, (⟨lexer.place, flag, lexer.mode⟩ : Lexer).rest cs = lexer.rest cs

/-- A step that writes comments only leaves the flag as it is. -/
theorem Opened.lift {lexer : Lexer} {place : Place} {mode : Mode} {comments : List Lexeme}
    {c : Char} {cs : List Char} (hComments : ∀ y ∈ comments, y.token.isComment = true)
    (hStep : ∀ flag, (⟨lexer.place, flag, lexer.mode⟩ : Lexer).step c =
      (comments.map .lexeme, ⟨place, flag, mode⟩))
    (h : opensProgram ((⟨place, lexer.afterOperand, mode⟩ : Lexer).rest cs) = true →
      Opened ⟨place, lexer.afterOperand, mode⟩ cs)
    (hOpens : opensProgram (lexer.rest (c :: cs)) = true) : lexer.Opened (c :: cs) := by
  have hRest (flag : Bool) : (⟨lexer.place, flag, lexer.mode⟩ : Lexer).rest (c :: cs) =
      comments.map .lexeme ++ (⟨place, flag, mode⟩ : Lexer).rest cs := by
    rw [rest_cons, hStep]
  have hSame : lexer.rest (c :: cs) = comments.map .lexeme ++
      (⟨place, lexer.afterOperand, mode⟩ : Lexer).rest cs := hRest lexer.afterOperand
  rw [hSame, opensProgram_comments hComments] at hOpens
  obtain ⟨⟨others, x, tail, hShape, hOthers, hx⟩, hFree⟩ := h hOpens
  constructor
  · refine ⟨comments ++ others, x, tail, ?_, List.forall_mem_append.mpr ⟨hComments, hOthers⟩, hx⟩
    rw [hSame, hShape, List.map_append, List.append_assoc]
  · intro flag
    rw [hRest, hSame]
    exact congrArg _ (hFree flag)

theorem opened {lexer : Lexer} {cs : List Char} (h : opensProgram (lexer.rest cs) = true) :
    lexer.Opened cs := by
  induction cs generalizing lexer with
  | nil =>
      have hMode : ¬lexer.mode.Refuses := fun hMode => by
        simp [opensProgram_of_refuses hMode] at h
      obtain ⟨place, flag, mode⟩ := lexer
      refine ⟨?_, fun _ => rfl⟩
      cases mode with
      | between => exact ⟨[], _, [], rfl, by simp, rfl, rfl⟩
      | name start read => exact ⟨[], _, _, rfl, by simp, rfl, h⟩
      | comment start read => exact ⟨[_], _, [], rfl, by simp [Token.isComment], rfl, rfl⟩
      | minus | number | dots | text | escape => exact absurd trivial hMode
  | cons c cs ih =>
      have hMode : ¬lexer.mode.Refuses := fun hMode => by
        simp [opensProgram_of_refuses hMode] at h
      obtain ⟨place, flag, mode⟩ := lexer
      cases mode with
      | between =>
          rcases Mode.begin_refuses place.location (place.advance c).location c with
            hSilent | hRefuses
          · have hStep (flag : Bool) : (⟨place, flag, .between⟩ : Lexer).step c =
                (([] : List Lexeme).map .lexeme, ⟨place.advance c, flag,
                  (Mode.begin place.location (place.advance c).location c).2⟩) := by
              simp [step, Mode.extend?, Mode.close, hSilent]
            exact Opened.lift (by simp) hStep ih h
          · have hFalse : opensProgram (((⟨place, flag, .between⟩ : Lexer).step c).1 ++
                ((⟨place, flag, .between⟩ : Lexer).step c).2.rest cs) = false :=
              hRefuses.opensProgram_append _
            rw [rest_cons, hFalse] at h
            cases h
      | name start read =>
          by_cases hMore : continuesName c = true
          · have hStep (flag : Bool) : (⟨place, flag, .name start read⟩ : Lexer).step c =
                (([] : List Lexeme).map .lexeme,
                  ⟨place.advance c, flag, .name start (c :: read)⟩) := by
              simp [step, Mode.extend?, hMore]
            exact Opened.lift (by simp) hStep ih h
          · -- The name ends here, and whatever stood before it is forgotten.
            have hStep (flag : Bool) : (⟨place, flag, .name start read⟩ : Lexer).step c =
                (.lexeme ⟨.identifier (String.ofList read.reverse), ⟨start, place.location⟩⟩ ::
                    (Mode.begin place.location (place.advance c).location c).1,
                  ⟨place.advance c,
                    (Mode.begin place.location (place.advance c).location c).1.foldl
                      Lexed.afterOperand true,
                    (Mode.begin place.location (place.advance c).location c).2⟩) := by
              simp [step, Mode.extend?, hMore, Mode.close, Lexed.token, Lexed.afterOperand,
                Token.isComment, Token.endsOperand]
            have hRest (flag : Bool) := (rest_cons ⟨place, flag, .name start read⟩ c cs).trans
              (congrArg (fun result => result.1 ++ result.2.rest cs) (hStep flag))
            rw [hRest flag] at h
            exact ⟨⟨[], _, _, hRest flag, by simp, rfl, h⟩,
              fun other => (hRest other).trans (hRest flag).symm⟩
      | comment start read =>
          by_cases hEnds : endsLine c = true
          · have hStep (flag : Bool) : (⟨place, flag, .comment start read⟩ : Lexer).step c =
                ([(⟨.comment (String.ofList read.reverse), ⟨start, place.location⟩⟩ :
                    Lexeme)].map .lexeme, ⟨place.advance c, flag, .between⟩) := by
              simp [step, Mode.extend?, hEnds, Mode.close, Mode.begin, isBlank_of_endsLine hEnds,
                Lexed.token, Lexed.afterOperand, Token.isComment]
            exact Opened.lift (by simp [Token.isComment]) hStep ih h
          · have hStep (flag : Bool) : (⟨place, flag, .comment start read⟩ : Lexer).step c =
                (([] : List Lexeme).map .lexeme,
                  ⟨place.advance c, flag, .comment start (c :: read)⟩) := by
              simp [step, Mode.extend?, hEnds]
            exact Opened.lift (by simp) hStep ih h
      | minus | number | dots | text | escape => exact absurd trivial hMode

/-- If the lexeme at hand can end with the text without a report, it ends at a line feed. -/
theorem step_lineFeed {lexer : Lexer}
    (h : lexReports (lexer.mode.close lexer.place.location) = []) :
    ∃ flag, lexer.step '\n' = (lexer.mode.close lexer.place.location,
      ⟨lexer.place.advance '\n', flag, .between⟩) := by
  obtain ⟨place, flag, mode⟩ := lexer
  have hStep (hExtend : mode.extend? flag place.location (place.advance '\n').location '\n' = none) :
      ∃ flag', (⟨place, flag, mode⟩ : Lexer).step '\n' =
        (mode.close place.location, ⟨place.advance '\n', flag', .between⟩) := by
    have hBegin : Mode.begin place.location (place.advance '\n').location '\n' =
        ([], .between) := rfl
    refine ⟨(mode.close place.location).foldl Lexed.afterOperand flag, ?_⟩
    simp only [step, hExtend, hBegin, List.append_nil]
  cases mode with
  | text start read => cases h
  | escape start read backslash => cases h
  | between | minus | name | number | dots | comment => exact hStep rfl

end Lexer

theorem lex_eq_rest (source : String) : lex source = Lexer.first.rest source.toList := rfl

theorem opensProgram_relocate (f : Location → Location) (items : List Lexed) :
    opensProgram (items.map (Lexed.relocate f)) = opensProgram items := by
  induction items with
  | nil => rfl
  | cons item items ih =>
      cases item with
      | report d => exact ih
      | lexeme x =>
          have hToken : (x.relocate f).token = x.token := rfl
          rw [List.map_cons, Lexed.relocate]
          cases hx : x.token.isComment with
          | true =>
              rw [opensProgram_comment hx, opensProgram_comment (by rw [hToken, hx]), ih]
          | false =>
              rw [opensProgram_lexeme hx, opensProgram_lexeme (by rw [hToken, hx]), hToken]

/-- The lexemes of two joined texts are those of the first up to its end, and those of the second
further down. -/
theorem lex_join {first second : String} (hFirst : lexReports (lex first) = [])
    (hSecond : opensProgram (lex second) = true) :
    lex (first ++ "\n" ++ second) = (TokenStream.ofText first).items ++ (lex second).map
      (Lexed.relocate (Location.down (lineBreaks (first.toList ++ ['\n'])))) := by
  obtain ⟨hPlace, -⟩ := Lexer.first.transduce_tiled rfl first.toList
  have hClosed : lexReports ((transduce Lexer.step Lexer.first first.toList).2.mode.close
      (transduce Lexer.step Lexer.first first.toList).2.place.location) = [] := by
    simp only [lex, Lexer.finish, lexReports_append, List.append_eq_nil_iff] at hFirst
    exact hFirst.2.1
  obtain ⟨flag, hStep⟩ := Lexer.step_lineFeed hClosed
  have hNext : (transduce Lexer.step Lexer.first first.toList).2.place.advance '\n' =
      Place.first.down (lineBreaks (first.toList ++ ['\n'])) := by
    rw [hPlace, ← Place.after_lineFeed, Place.after_append]
    rfl
  have hText : (first ++ "\n" ++ second).toList = first.toList ++ '\n' :: second.toList := by
    simp
  have hAlone := Lexer.rest_down (lineBreaks (first.toList ++ ['\n'])) Lexer.first second.toList
  have hFree := (Lexer.opened (by rw [hAlone, opensProgram_relocate]; exact hSecond)).free flag
  rw [lex_eq_rest, hText, Lexer.rest_append, Lexer.rest_cons, hStep, ← List.append_assoc,
    lex_eq_rest, ← hAlone, hNext]
  exact congrArg _ hFree

namespace Parser

section Finish

variable {last : Lexeme} (hLast : last.token = .finish)

include hLast

/-- If the end of the text completes the statement at hand, so does every other lexeme that does not
go on with its expression. -/
theorem takeEnd_of_finish {goal : Goal} {e : Expr} {stack : List Frame}
    (h : ∀ d, takeEnd goal e stack last ≠ .before (.report d)) :
    ∃ s, ∀ x, takeEnd goal e stack x = .before (.statement s) := by
  obtain ⟨token, span⟩ := last
  cases hLast
  induction stack generalizing e with
  | nil => exact ⟨goal.statement e, fun x => rfl⟩
  | cons frame stack ih =>
      cases frame with
      | rightOperand left op => exact ih h
      | _ => exact absurd rfl (h _)

theorem take_of_finish {parser : Parser} (hParser : parser ≠ recovery)
    (h : ∀ d, parser.take last ≠ .before (.report d)) :
    parser = statement ∨
      ∃ s, ∀ x, x.token.operator? = none → parser.take x = .before (.statement s) := by
  obtain ⟨token, span⟩ := last
  cases hLast
  cases parser with
  | statement => exact .inl rfl
  | recovery => exact absurd rfl hParser
  | target | equals | text => exact absurd rfl (h _)
  | expression goal stack want =>
      cases want with
      | operator e =>
          obtain ⟨s, hs⟩ := takeEnd_of_finish rfl h
          refine .inr ⟨s, fun x hx => ?_⟩
          obtain ⟨token, place⟩ := x
          cases token with
          | operator op => cases hx
          | _ => exact hs _
      | literal minus =>
          exact absurd (ite_self _) (h ⟨.parse (.expected .expression "-"), minus, none⟩)
      | opening keyword bulk =>
          cases bulk with
          | map | reduce => exact absurd rfl (h _)
      | operand | mapParameter | mapArrow | accumulator | element | reduceArrow =>
          exact absurd rfl (h _)

theorem step_of_finish {parser : Parser} (hParser : parser ≠ recovery)
    (h : reports (parser.step last).1 = []) :
    ∃ done : List Statement, ∀ x, x.token.operator? = none →
      parser.step x = (done.map .statement ++ (statement.step x).1, (statement.step x).2) := by
  have hSilent (d : Diagnostic) : parser.take last ≠ .before (.report d) := by
    intro hTake
    rw [step_of_before hTake] at h
    cases h
  rcases take_of_finish hLast hParser hSilent with rfl | ⟨s, hs⟩
  · exact ⟨[], fun x _ => rfl⟩
  · exact ⟨[s], fun x hx => step_of_before (hs x hx)⟩

end Finish

/-- A parser that has reported nothing has not given up. -/
theorem ne_recovery {items : List Lexed} (h : reports (transduce feed first items).1 = []) :
    (transduce feed first items).2 ≠ recovery := by
  have hStep (events : List Event) (parser : Parser) (item : Lexed)
      (h : reports events = [] → parser ≠ recovery) :
      reports (events ++ (parser.feed item).1) = [] → (parser.feed item).2 ≠ recovery := by
    rw [reports_append, List.append_eq_nil_iff]
    rintro ⟨hBefore, hHere⟩
    cases item with
    | report d => cases hHere
    | lexeme x =>
        rw [feed] at hHere ⊢
        split at hHere
        · next hComment =>
            rw [if_pos hComment]
            exact h hBefore
        · next hToken =>
            rw [if_neg hToken]
            intro hGiven
            rcases (parser.explained_step x).given hGiven with hParser | hSome
            · exact h hBefore hParser
            · exact hSome hHere
  have hFirst : reports [] = [] → first ≠ recovery := by
    intro _ hGiven
    cases hGiven
  exact transduce_history (fun events parser => reports events = [] → parser ≠ recovery) hStep
    items hFirst h

theorem transduce_comments {comments : List Lexeme}
    (h : ∀ x ∈ comments, x.token.isComment = true) (parser : Parser) (items : List Lexed) :
    transduce feed parser (comments.map .lexeme ++ items) = transduce feed parser items := by
  induction comments with
  | nil => rfl
  | cons x comments ih =>
      obtain ⟨hx, hRest⟩ := List.forall_mem_cons.mp h
      rw [List.map_cons, List.cons_append, transduce_cons, feed, if_pos hx, ih hRest]
      rfl

end Parser

/-- Two joined texts are read one after the other. -/
theorem parse_join {first second : String} (hFirst : reports (parse first) = [])
    (hSecond : opensProgram (lex second) = true) :
    parse (first ++ "\n" ++ second) = parse first ++ (parse second).map
      (Event.relocate (Location.down (lineBreaks (first.toList ++ ['\n'])))) := by
  have hLexed : lexReports (lex first) = [] := by
    rw [← lex_of_parse, hFirst]
    rfl
  have hAlone := Lexer.rest_down (lineBreaks (first.toList ++ ['\n'])) Lexer.first second.toList
  obtain ⟨comments, x, tail, hShape, hComments, hx, hOpens⟩ :=
    (Lexer.opened (by rw [hAlone, opensProgram_relocate]; exact hSecond)).shape
  rw [hAlone, ← lex_eq_rest] at hShape
  -- The first text alone ends with the end of the text, which completes its last statement.
  have hParse : parse first = (transduce Parser.feed Parser.first
      (TokenStream.ofText first).items).1 ++ ((transduce Parser.feed Parser.first
        (TokenStream.ofText first).items).2.step (TokenStream.ofText first).finish).1 := by
    rw [parse, lex_eq_items_append, transduce_append, transduce_cons, transduce_nil]
    exact congrArg _ (List.append_nil _)
  rw [hParse, reports_append, List.append_eq_nil_iff] at hFirst
  obtain ⟨done, hDone⟩ := Parser.step_of_finish rfl (Parser.ne_recovery hFirst.1) hFirst.2
  have hJoined : (transduce Parser.feed (transduce Parser.feed Parser.first
      (TokenStream.ofText first).items).2 (comments.map .lexeme ++ .lexeme x :: tail)).1 =
      done.map .statement ++ (transduce Parser.feed Parser.first
        (comments.map .lexeme ++ .lexeme x :: tail)).1 := by
    have hStep := hDone x (Token.operator?_of_opens hOpens)
    rw [Parser.transduce_comments hComments, Parser.transduce_comments hComments, transduce_cons,
      transduce_cons, Parser.feed, Parser.feed, if_neg (by simp [hx]), if_neg (by simp [hx]), hStep,
      List.append_assoc]
    rfl
  have hMoved := Parser.transduce_relocate
    (Location.down_strictMono (lineBreaks (first.toList ++ ['\n']))) Parser.first (lex second)
  have hEnd : ((transduce Parser.feed Parser.first (TokenStream.ofText first).items).2.step
      (TokenStream.ofText first).finish).1 = done.map .statement := by
    rw [hDone _ rfl]
    exact List.append_nil _
  rw [hParse, hEnd, parse, lex_join hLexed hSecond, transduce_append, hShape, hJoined, ← hShape,
    List.append_assoc]
  exact congrArg (fun result => _ ++ (_ ++ result.1)) hMoved

end Progression
