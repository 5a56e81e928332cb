import Progression.Proofs.LineEnds

/-! Comments. With a space for every character of its comments a text has the same other lexemes at
the same places. Whether a minus sign belongs to a literal depends on the last lexeme that is no
comment, a comment ends where a space ends whatever stands before it, and inside a text literal there
are no comments. -/

namespace Progression

/-- Whether the location lies in a comment. -/
def Lexeme.isRemarkAt (x : Lexeme) (location : Location) : Bool :=
  x.token.isComment && decide (x.span.start ≤ location ∧ location < x.span.stop)

theorem Lexeme.isRemarkAt_iff {x : Lexeme} {location : Location} :
    x.isRemarkAt location = true ↔
      x.token.isComment = true ∧ x.span.start ≤ location ∧ location < x.span.stop := by
  simp [isRemarkAt]

/-- The characters from a place on, with a space for each that stands in a comment among `xs`. No
comment contains a line end; these are left out because a line feed after a carriage return has the
location of the character after it. -/
def blankFrom (xs : List Lexeme) (place : Place) : List Char → List Char
  | [] => []
  | c :: cs =>
      let blanked := !Lexer.endsLine c && xs.any fun x => x.isRemarkAt place.location
      (if blanked then ' ' else c) :: blankFrom xs (place.advance c) cs

/-- The text with a space for every character of its comments. -/
def blankComments (source : String) : String :=
  String.ofList (blankFrom (lexemes (lex source)) Place.first source.toList)

/-- Whether the item is a comment. -/
def Lexed.isComment : Lexed → Bool
  | report _ => false
  | lexeme x => x.token.isComment

/-- Whether a comment is being read. -/
def Mode.isComment : Mode → Bool
  | comment _ _ => true
  | _ => false

/-- No item is a comment. -/
def Uncommented (items : List Lexed) : Prop := ∀ item ∈ items, item.isComment = false

namespace Uncommented

theorem filter_eq {items : List Lexed} (h : Uncommented items) :
    items.filter (fun item => !item.isComment) = items :=
  List.filter_eq_self.mpr fun item hMem => by simp [h item hMem]

theorem append {first second : List Lexed} (hFirst : Uncommented first)
    (hSecond : Uncommented second) : Uncommented (first ++ second) :=
  List.forall_mem_append.mpr ⟨hFirst, hSecond⟩

theorem isComment_of_mem {items : List Lexed} (h : Uncommented items) {x : Lexeme}
    (hMem : x ∈ lexemes items) : x.token.isComment = false := by
  obtain ⟨item, hItem, hLexeme⟩ := List.mem_filterMap.mp hMem
  cases item with
  | report d => cases hLexeme
  | lexeme y =>
      cases hLexeme
      exact h _ hItem

end Uncommented

namespace Mode

theorem close_uncommented {mode : Mode} (h : mode.isComment = false) (stop : Location) :
    Uncommented (mode.close stop) := by
  cases mode with
  | comment start read => cases h
  | number start read dotted =>
      simp only [close, numberLexed]
      repeat' split
      all_goals simp [Uncommented, Lexed.error, Lexed.token, Lexed.isComment, Token.isComment]
  | _ => simp [close, Uncommented, Lexed.error, Lexed.token, Lexed.isComment, Token.isComment]

theorem extend?_uncommented {mode after : Mode} (h : mode.isComment = false) {flag : Bool}
    {here next : Location} {c : Char} {written : List Lexed}
    (hExtend : mode.extend? flag here next c = some (written, after)) :
    Uncommented written ∧ after.isComment = false := by
  cases mode with
  | between => cases hExtend
  | comment start read => cases h
  | _ =>
      simp only [extend?] at hExtend
      repeat' split at hExtend
      all_goals cases hExtend
      all_goals
        simp [Uncommented, Lexed.error, Lexed.token, Lexed.isComment, Token.isComment, isComment]

theorem single?_isComment {c : Char} {token : Token} (h : Lexer.single? c = some token) :
    token.isComment = false := (single?_inner h).1

/-- Only a number sign begins a comment. -/
theorem begin_uncommented (here next : Location) {c : Char} (h : c ≠ '#') :
    Uncommented (begin here next c).1 ∧ (begin here next c).2.isComment = false := by
  rw [begin]
  split
  · exact ⟨by simp [Uncommented], rfl⟩
  split
  · exact ⟨by simp [Uncommented], rfl⟩
  split
  · exact ⟨by simp [Uncommented], rfl⟩
  split
  · exact ⟨by simp [Uncommented], rfl⟩
  split
  · exact ⟨by simp [Uncommented], rfl⟩
  split
  · next token hSingle =>
      exact ⟨List.forall_mem_singleton.mpr (single?_isComment hSingle), rfl⟩
  · exact ⟨by simp [Uncommented, Lexed.error, Lexed.token, Lexed.isComment, Token.isComment], rfl⟩

end Mode

namespace Lexer

/-- All that a character can do to comments: nothing, it begins one, it belongs to one, or it ends
one. A space in the place of the character that begins one ends the lexeme before it likewise. -/
inductive Remarks (lexer : Lexer) (c : Char) : Prop where
  | none (hMode : lexer.mode.isComment = false) (hNext : (lexer.step c).2.mode.isComment = false)
      (hWritten : Uncommented (lexer.step c).1)
  | opens {written : List Lexed} {flag : Bool} (hMode : lexer.mode.isComment = false)
      (hLine : endsLine c = false) (hWritten : Uncommented written)
      (hStep : lexer.step c =
        (written, ⟨lexer.place.advance c, flag, .comment lexer.place.location [c]⟩))
      (hSpace : lexer.step ' ' = (written, ⟨lexer.place.advance ' ', flag, .between⟩))
  | inside {start : Location} {read : List Char} (hMode : lexer.mode = .comment start read)
      (hLine : endsLine c = false)
      (hStep : lexer.step c =
        ([], ⟨lexer.place.advance c, lexer.afterOperand, .comment start (c :: read)⟩))
  | closes {start : Location} {read : List Char} (hMode : lexer.mode = .comment start read)
      (hLine : endsLine c = true)
      (hStep : lexer.step c =
        ([.token (.comment (String.ofList read.reverse)) start lexer.place.location],
          ⟨lexer.place.advance c, lexer.afterOperand, .between⟩))

theorem remarks (lexer : Lexer) (c : Char) : lexer.Remarks c := by
  obtain ⟨place, flag, mode⟩ := lexer
  cases hComment : mode.isComment with
  | true =>
      cases mode with
      | comment start read =>
          cases hLine : endsLine c with
          | true =>
              refine .closes rfl hLine ?_
              simp [step, Mode.extend?, hLine, Mode.close, Mode.begin, isBlank_of_endsLine hLine,
                Lexed.token, Lexed.afterOperand, Token.isComment]
          | false =>
              refine .inside rfl hLine ?_
              simp [step, Mode.extend?, hLine]
      | _ => cases hComment
  | false =>
      cases hExtend : mode.extend? flag place.location (place.advance c).location c with
      | some result =>
          obtain ⟨written, after⟩ := result
          obtain ⟨hWritten, hAfter⟩ := Mode.extend?_uncommented hComment hExtend
          exact .none hComment (by simpa only [step, hExtend] using hAfter)
            (by simpa only [step, hExtend] using hWritten)
      | none =>
          have hClosed := Mode.close_uncommented hComment place.location
          by_cases hSign : c = '#'
          · subst hSign
            have hSpace : mode.extend? flag place.location (place.advance ' ').location ' ' =
                none := by
              cases mode with
              | text start read => cases hExtend
              | escape start read backslash => cases hExtend
              | comment start read => cases hComment
              | _ => rfl
            have hBegun : Mode.begin place.location (place.advance '#').location '#' =
                ([], .comment place.location ['#']) := rfl
            have hBlank : Mode.begin place.location (place.advance ' ').location ' ' =
                ([], .between) := rfl
            have hStep : (⟨place, flag, mode⟩ : Lexer).step '#' = (mode.close place.location,
                ⟨place.advance '#', (mode.close place.location).foldl Lexed.afterOperand flag,
                  .comment place.location ['#']⟩) := by
              simp only [step, hExtend, hBegun, List.append_nil]
            refine .opens hComment rfl hClosed hStep ?_
            simp only [step, hSpace, hBlank, List.append_nil]
          · obtain ⟨hBegun, hAfter⟩ := Mode.begin_uncommented place.location
              (place.advance c).location hSign
            exact .none hComment (by simpa only [step, hExtend] using hAfter)
              (by simpa only [step, hExtend] using hClosed.append hBegun)

namespace Reading

variable {place : Place} {read : List Char} {xs : List Lexeme} {mode : Mode}

/-- The lexemes written so far lie before the place that was reached. -/
theorem stop_le (h : Reading place read xs mode) :
    ∀ x ∈ xs, x.span.stop ≤ (place.after read).location := by
  cases h with
  | @mk covered gap text xs mode hTiled hGap hMode =>
      intro x hMem
      rw [List.append_assoc, Place.after_append]
      exact (hTiled.stop_le x hMem).trans (Place.location_le_after _ _)

/-- The comment that is being read began before. -/
theorem start_le {start : Location} {cs : List Char}
    (h : Reading place read xs (.comment start cs)) : start ≤ (place.after read).location := by
  cases h with
  | @mk covered gap text xs mode hTiled hGap hMode =>
      rw [hMode.1, Place.after_append _ (covered ++ gap)]
      exact Place.location_le_after _ _

end Reading

/-- The comment that is being read will be written, and reaches at least up to here. -/
theorem exists_comment {lexer : Lexer} {start : Location} {read : List Char}
    (h : lexer.mode = .comment start read) (cs : List Char) :
    ∃ x ∈ lexemes (lexer.rest cs), x.token.isComment = true ∧ x.span.start = start ∧
      lexer.place.location ≤ x.span.stop := by
  induction cs generalizing lexer read with
  | nil =>
      refine ⟨⟨.comment (String.ofList read.reverse), ⟨start, lexer.place.location⟩⟩, ?_, rfl, rfl,
        le_refl _⟩
      simp [rest, finish, h, Mode.close, lexemes, Lexed.token, Lexed.lexeme?]
  | cons c cs ih =>
      rw [rest_cons, lexemes_append]
      cases lexer.remarks c with
      | none hMode | opens hMode =>
          rw [h] at hMode
          cases hMode
      | @inside other otherRead hMode hLine hStep =>
          rw [h] at hMode
          cases hMode
          have hNext : (lexer.step c).2.mode = .comment start (c :: read) := by rw [hStep]
          obtain ⟨x, hMem, hx, hStart, hStop⟩ := ih hNext
          rw [step_place] at hStop
          exact ⟨x, List.mem_append_right _ hMem, hx, hStart,
            (lexer.place.location_le_advance c).trans hStop⟩
      | @closes other otherRead hMode hLine hStep =>
          rw [h] at hMode
          cases hMode
          rw [hStep]
          exact ⟨_, List.mem_cons_self .., rfl, rfl, le_refl _⟩

theorem finish_uncommented {lexer : Lexer} (h : lexer.mode.isComment = false) :
    Uncommented lexer.finish :=
  (Mode.close_uncommented h _).append (List.forall_mem_singleton.mpr rfl)

/-- A comment that is still to be written is the one being read, or begins later. -/
theorem comment_start (lexer : Lexer) (cs : List Char) {x : Lexeme}
    (hMem : x ∈ lexemes (lexer.rest cs)) (hx : x.token.isComment = true) :
    lexer.place.location ≤ x.span.start ∨ ∃ read, lexer.mode = .comment x.span.start read := by
  induction cs generalizing lexer with
  | nil =>
      cases hComment : lexer.mode.isComment with
      | false =>
          rw [(finish_uncommented hComment).isComment_of_mem hMem] at hx
          cases hx
      | true =>
          obtain ⟨place, flag, mode⟩ := lexer
          cases mode with
          | comment start read =>
              rcases List.mem_cons.mp hMem with rfl | hFinish
              · exact .inr ⟨read, rfl⟩
              · rw [List.mem_singleton.mp hFinish] at hx
                cases hx
          | _ => cases hComment
  | cons c cs ih =>
      rw [rest_cons, lexemes_append, List.mem_append] at hMem
      have hForward := lexer.place.location_le_advance c
      cases lexer.remarks c with
      | none hMode hNext hWritten =>
          rcases hMem with hHere | hRest
          · rw [hWritten.isComment_of_mem hHere] at hx
            cases hx
          · rcases ih _ hRest with hLater | ⟨read, hSame⟩
            · rw [step_place] at hLater
              exact .inl (hForward.trans hLater)
            · rw [hSame] at hNext
              cases hNext
      | opens hMode hLine hWritten hStep hSpace =>
          rw [hStep] at hMem
          rcases hMem with hHere | hRest
          · rw [hWritten.isComment_of_mem hHere] at hx
            cases hx
          · rcases ih _ hRest with hLater | ⟨read, hSame⟩
            · exact .inl (hForward.trans hLater)
            · exact .inl (le_of_eq (Mode.comment.inj hSame).1)
      | @inside start read hMode hLine hStep =>
          rw [hStep] at hMem
          rcases hMem with hHere | hRest
          · cases hHere
          · rcases ih _ hRest with hLater | ⟨read, hSame⟩
            · exact .inl (hForward.trans hLater)
            · rw [(Mode.comment.inj hSame).1] at hMode
              exact .inr ⟨_, hMode⟩
      | @closes start read hMode hLine hStep =>
          rw [hStep] at hMem
          rcases hMem with hHere | hRest
          · rw [List.mem_singleton.mp hHere]
            exact .inr ⟨_, hMode⟩
          · rcases ih _ hRest with hLater | ⟨read, hSame⟩
            · exact .inl (hForward.trans hLater)
            · cases hSame

theorem lt_advance {c : Char} (h : endsLine c = false) (place : Place) :
    place.location < (place.advance c).location := by
  apply place.location_lt_advance
  rintro rfl
  cases h

/-- The comment that is being read after a character will cover it. -/
theorem exists_remark {lexer : Lexer} {c : Char} (hLine : endsLine c = false) {start : Location}
    {read : List Char} (hNext : (lexer.step c).2.mode = .comment start read)
    (hStart : start ≤ lexer.place.location) (cs : List Char) :
    ∃ x ∈ lexemes ((lexer.step c).2.rest cs), x.isRemarkAt lexer.place.location = true := by
  obtain ⟨x, hMem, hx, rfl, hStop⟩ := exists_comment hNext cs
  rw [step_place] at hStop
  exact ⟨x, hMem, Lexeme.isRemarkAt_iff.mpr ⟨hx, hStart, (lt_advance hLine _).trans_le hStop⟩⟩

/-- If none is being read after a character, no comment still to come covers it. -/
theorem not_remark {lexer : Lexer} {c : Char} (hLine : endsLine c = false)
    (hNext : (lexer.step c).2.mode.isComment = false) {cs : List Char} {x : Lexeme}
    (hMem : x ∈ lexemes ((lexer.step c).2.rest cs)) :
    ¬x.isRemarkAt lexer.place.location = true := by
  intro hRemark
  obtain ⟨hx, hStart, -⟩ := Lexeme.isRemarkAt_iff.mp hRemark
  rcases comment_start _ _ hMem hx with hFrom | ⟨read, hComment⟩
  · rw [step_place] at hFrom
    exact ((lt_advance hLine _).trans_le hFrom).not_ge hStart
  · rw [hComment] at hNext
    cases hNext

/-- A character that ends no line stands in a comment of the text if and only if a comment is being
read after it. -/
theorem any_isRemarkAt {source : String} {read cs : List Char} {c : Char}
    (h : source.toList = read ++ c :: cs) (hLine : endsLine c = false) :
    ((lexemes (lex source)).any fun x =>
        x.isRemarkAt (transduce step first read).2.place.location) =
      ((transduce step first read).2.step c).2.mode.isComment := by
  obtain ⟨hPlace, hReading⟩ := first.transduce_reading rfl read
  have hLexemes : lexemes (lex source) = lexemes (transduce step first read).1 ++
      (lexemes ((transduce step first read).2.step c).1 ++
        lexemes (((transduce step first read).2.step c).2.rest cs)) := by
    rw [lex_eq_rest, h, rest_append, rest_cons, lexemes_append, lexemes_append]
  have hBefore := hReading.stop_le
  rw [← hPlace] at hBefore
  rw [hLexemes]
  generalize (transduce step first read).1 = written at hReading hBefore
  generalize (transduce step first read).2 = lexer at hPlace hReading hBefore
  cases lexer.remarks c with
  | none hMode hNext hWritten =>
      rw [hNext, List.any_eq_false]
      intro x hMem
      rcases List.mem_append.mp hMem with hPast | hMem
      · intro hRemark
        exact (hBefore x hPast).not_gt (Lexeme.isRemarkAt_iff.mp hRemark).2.2
      rcases List.mem_append.mp hMem with hHere | hLater
      · simp [Lexeme.isRemarkAt, hWritten.isComment_of_mem hHere]
      · exact not_remark hLine hNext hLater
  | opens hMode _ hWritten hStep hSpace =>
      obtain ⟨x, hMem, hRemark⟩ := exists_remark hLine (by rw [hStep]) (le_refl _) cs
      rw [List.any_eq_true.mpr ⟨x, by simp [hMem], hRemark⟩, hStep]
      rfl
  | @inside start found hMode _ hStep =>
      rw [hMode] at hReading
      have hStart := hReading.start_le
      rw [← hPlace] at hStart
      obtain ⟨x, hMem, hRemark⟩ := exists_remark hLine (by rw [hStep]) hStart cs
      rw [List.any_eq_true.mpr ⟨x, by simp [hMem], hRemark⟩, hStep]
      rfl
  | closes hMode hEnds hStep =>
      rw [hLine] at hEnds
      cases hEnds

/-- After a line end no comment is being read. -/
theorem isComment_of_endsLine (lexer : Lexer) {c : Char} (h : endsLine c = true) :
    (lexer.step c).2.mode.isComment = false := by
  cases lexer.remarks c with
  | none hMode hNext hWritten => exact hNext
  | opens hMode hLine hWritten hStep hSpace =>
      rw [h] at hLine
      cases hLine
  | inside hMode hLine hStep =>
      rw [h] at hLine
      cases hLine
  | closes hMode hLine hStep =>
      rw [hStep]
      rfl

/-- The lexer as if nothing of the comment at hand had been read. -/
def unremarked (lexer : Lexer) : Lexer :=
  ⟨lexer.place, lexer.afterOperand, if lexer.mode.isComment then .between else lexer.mode⟩

theorem unremarked_eq {lexer : Lexer} (h : lexer.mode.isComment = false) :
    lexer.unremarked = lexer := by
  simp [unremarked, h]

/-- All characters that end no line move a place alike. -/
theorem advance_space {c : Char} (h : endsLine c = false) (place : Place) :
    place.advance ' ' = place.advance c := by
  have hOther : c ≠ '\n' ∧ c ≠ '\r' := by simpa [endsLine] using h
  simp [Place.advance, hOther]

/-- A character that is replaced by a space exactly if it belongs to a comment. -/
theorem step_unremarked (lexer : Lexer) (c : Char) :
    lexer.unremarked.step (if (lexer.step c).2.mode.isComment then ' ' else c) =
      ((lexer.step c).1.filter fun item => !item.isComment, (lexer.step c).2.unremarked) := by
  cases lexer.remarks c with
  | none hMode hNext hWritten =>
      rw [unremarked_eq hMode, unremarked_eq hNext, hNext, hWritten.filter_eq]
      rfl
  | opens hMode hLine hWritten hStep hSpace =>
      rw [hStep, unremarked_eq hMode, hWritten.filter_eq]
      simp only [Mode.isComment, unremarked, if_true, hSpace, advance_space hLine]
  | @inside start read hMode hLine hStep =>
      rw [hStep]
      simp only [Mode.isComment, unremarked, hMode, if_true, List.filter_nil,
        ← advance_space hLine]
      rfl
  | @closes start read hMode hLine hStep =>
      rw [hStep]
      simp [Mode.isComment, unremarked, hMode, step, Mode.extend?, Mode.close, Mode.begin,
        isBlank_of_endsLine hLine, Lexed.token, Lexed.isComment, Token.isComment]

theorem finish_unremarked (lexer : Lexer) :
    lexer.unremarked.finish = lexer.finish.filter fun item => !item.isComment := by
  cases hMode : lexer.mode.isComment with
  | false => rw [unremarked_eq hMode, (finish_uncommented hMode).filter_eq]
  | true =>
      obtain ⟨place, flag, mode⟩ := lexer
      cases mode with
      | comment start read => rfl
      | _ => cases hMode

/-- From any point of a text on, reading it with its comments blanked out writes what reading it
writes apart from comments. -/
theorem rest_blankFrom {source : String} (cs read : List Char) (h : source.toList = read ++ cs) :
    (transduce step first read).2.unremarked.rest
        (blankFrom (lexemes (lex source)) (transduce step first read).2.place cs) =
      ((transduce step first read).2.rest cs).filter fun item => !item.isComment := by
  induction cs generalizing read with
  | nil => exact finish_unremarked _
  | cons c cs ih =>
      have hNext : (transduce step first (read ++ [c])).2 =
          ((transduce step first read).2.step c).2 := by
        rw [transduce_append]
        rfl
      have hRest := ih (read ++ [c]) (by simp [h])
      have hBlanked : (!endsLine c && (lexemes (lex source)).any fun x =>
          x.isRemarkAt (transduce step first read).2.place.location) =
            ((transduce step first read).2.step c).2.mode.isComment := by
        cases hLine : endsLine c with
        | true => exact (isComment_of_endsLine _ hLine).symm
        | false => exact any_isRemarkAt h hLine
      rw [hNext, step_place] at hRest
      rw [blankFrom, hBlanked, rest_cons, rest_cons, step_unremarked, hRest, List.filter_append]

end Lexer

/-- The lexemes of a text with its comments blanked out are those of the text apart from comments,
with the same reports. -/
theorem lex_blankComments (source : String) :
    lex (blankComments source) = (lex source).filter fun item => !item.isComment := by
  rw [lex_eq_rest, lex_eq_rest, blankComments, String.toList_ofList]
  exact Lexer.rest_blankFrom source.toList [] rfl

theorem lexemes_uncommented (items : List Lexed) :
    lexemes (items.filter fun item => !item.isComment) =
      (lexemes items).filter fun x => !x.token.isComment := by
  rw [lexemes, lexemes, List.filterMap_filter, List.filter_filterMap]
  congr 1
  funext item
  cases item with
  | report d => rfl
  | lexeme x => simp [Lexed.isComment, Lexed.lexeme?, Option.filter]

/-- The parser ignores comments. -/
theorem Parser.transduce_uncommented (items : List Lexed) (parser : Parser) :
    transduce feed parser (items.filter fun item => !item.isComment) =
      transduce feed parser items := by
  induction items generalizing parser with
  | nil => rfl
  | cons item items ih =>
      cases hComment : item.isComment with
      | false =>
          rw [List.filter_cons_of_pos (by simp [hComment]), transduce_cons, transduce_cons, ih]
      | true =>
          have hFeed : parser.feed item = ([], parser) := by
            cases item with
            | report d => cases hComment
            | lexeme x =>
                have hToken : x.token.isComment = true := hComment
                rw [feed, if_pos hToken]
          rw [List.filter_cons_of_neg (by simp [hComment]), transduce_cons, hFeed, ih]
          rfl

/-- Comments never affect meaning. With a space for every character of its comments a text has the
same lexemes apart from comments, each with its token and its span, and its run gives the same output
and the same log. -/
theorem comments_immaterial (config : Config) (source : String) :
    lexemes (lex (blankComments source)) =
      (lexemes (lex source)).filter (fun x => !x.token.isComment) ∧
    (evaluate config (blankComments source)).output = (evaluate config source).output ∧
    (evaluate config (blankComments source)).log = (evaluate config source).log := by
  have hLex := lex_blankComments source
  have hRun : evaluate config (blankComments source) = evaluate config source := by
    simp only [evaluate, Session.feed, parse, hLex, Parser.transduce_uncommented]
  rw [hLex, hRun]
  exact ⟨lexemes_uncommented _, rfl, rfl⟩

example : blankComments "out 2 #two\r\n#\"\nprint \"#\"" = "out 2     \r\n  \nprint \"#\"" := by
  decide +kernel

end Progression
