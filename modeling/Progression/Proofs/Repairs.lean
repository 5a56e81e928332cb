import Progression.Proofs.Comments
import Progression.Proofs.Cuts
import Progression.Proofs.Offers

/-! Insertions that mend a program. A report about a missing token offers the token for insertion in
front of the lexeme that was found in its place. The text up to there is read as before, and then the
token is read and taken by the parser that had missed it. There is one exception: a comment that ends
with the text swallows what is inserted at the end of the text. -/

namespace Progression

namespace FixIt

/-- The characters of a text that begins at a place, with the insertion where its location is reached.
The line feed after a carriage return does not move the location; the insertion stands after it. -/
def insertInto (fix : FixIt) (place : Place) : List Char → List Char
  | [] => if place.location = fix.location then fix.insertion.toList else []
  | c :: cs =>
      if place.location = fix.location ∧ (place.advance c).location ≠ fix.location then
        fix.insertion.toList ++ c :: cs
      else c :: insertInto fix (place.advance c) cs

/-- The text with the insertion. -/
def apply (fix : FixIt) (source : String) : String :=
  String.ofList (fix.insertInto Place.first source.toList)

theorem insertInto_append {fix : FixIt} {place : Place} {before after : List Char}
    (hPlace : (place.after before).location = fix.location)
    (hNext : ∀ c ∈ after.head?, Text.isBlank c = false) :
    fix.insertInto place (before ++ after) = before ++ (fix.insertion.toList ++ after) := by
  induction before generalizing place with
  | nil =>
      cases after with
      | nil => exact (if_pos hPlace).trans (List.append_nil _).symm
      | cons c after =>
          have hMoves : place.location < (place.advance c).location :=
            place.location_lt_after (hNext c rfl) []
          exact if_pos ⟨hPlace, fun hSame => hMoves.ne (hPlace.trans hSame.symm)⟩
  | cons c before ih =>
      -- Locations never go back, so one that is reached twice is not left in between.
      have hStays : ¬(place.location = fix.location ∧
          (place.advance c).location ≠ fix.location) := by
        rintro ⟨hHere, hMoved⟩
        refine hMoved (le_antisymm ?_ (hHere ▸ place.location_le_advance c))
        exact hPlace ▸ (place.advance c).location_le_after before
      rw [List.cons_append, insertInto, if_neg hStays, ih hPlace]
      rfl

end FixIt

namespace Lexer

/-- Whether whatever follows on the line belongs to what is being read. -/
def takesAll (lexer : Lexer) : Bool :=
  match lexer.mode with
  | .text _ _ | .escape _ _ _ | .comment _ _ => true
  | _ => false

/-- A text literal takes every character, and a comment all but line ends. -/
theorem close_of_takesAll {lexer : Lexer} (h : lexer.takesAll = true) (stop : Location) :
    (∃ d content start, lexer.mode.close stop =
        [.report d, .lexeme ⟨.text content, ⟨start, stop⟩⟩] ∧ ∀ c, lexer.Extends c) ∨
      ∃ content start, lexer.mode.close stop =
        [.lexeme ⟨.comment content, ⟨start, stop⟩⟩] := by
  obtain ⟨place, flag, mode⟩ := lexer
  cases mode with
  | text start read =>
      refine .inl ⟨_, _, _, rfl, fun c => ?_⟩
      simp only [Extends, Mode.extend?]
      split
      · simp
      split
      · simp
      split
      · simp
      · simp
  | escape start read backslash =>
      refine .inl ⟨_, _, _, rfl, fun c => ?_⟩
      simp only [Extends, Mode.extend?]
      split
      · simp
      · simp
  | comment start read => exact .inr ⟨_, _, rfl⟩
  | between | minus | name | number | dots => cases h

/-- Whether the character belongs to no lexeme that began before it, unless everything does. -/
def standsAlone (c : Char) : Bool := !(continuesName c || beginsNumber c || c = '>')

section Supply

variable {lexer : Lexer} (hMode : lexer.takesAll = false)

include hMode

theorem not_extends {c : Char} (hc : standsAlone c = true) : ¬lexer.Extends c := by
  obtain ⟨⟨hName, hNumber⟩, hArrow⟩ :
      (continuesName c = false ∧ beginsNumber c = false) ∧ c ≠ '>' := by
    simpa [standsAlone] using hc
  have hDigit : c.isDigit = false ∧ c ≠ '.' := by simpa [beginsNumber] using hNumber
  obtain ⟨place, flag, mode⟩ := lexer
  refine not_not.mpr ?_
  cases mode with
  | between => rfl
  | minus start => simp [Mode.extend?, hArrow, hNumber]
  | name start read => simp [Mode.extend?, hName]
  | number start read dotted => simp [Mode.extend?, hDigit]
  | dots start => simp [Mode.extend?, hNumber]
  | text | escape | comment => cases hMode

/-- The lexeme at hand ends, and the character is read by itself. -/
theorem rest_begin {c : Char} (hc : standsAlone c = true) (cs : List Char) :
    ∃ flag, lexer.rest (c :: cs) = lexer.mode.close lexer.place.location ++
      ((Mode.begin lexer.place.location (lexer.place.advance c).location c).1 ++
        (⟨lexer.place.advance c, flag,
          (Mode.begin lexer.place.location (lexer.place.advance c).location c).2⟩ :
          Lexer).rest cs) := by
  have hExtend := not_not.mp (not_extends hMode hc)
  refine ⟨((lexer.mode.close lexer.place.location ++
    (Mode.begin lexer.place.location (lexer.place.advance c).location c).1).foldl
      Lexed.afterOperand lexer.afterOperand), ?_⟩
  rw [rest_cons, step]
  simp only [hExtend, List.append_assoc]

/-- What supplies a token is read as that token, whatever follows. -/
theorem rest_supply {wanted : Wanted} {token : Token} (hToken : wanted.supplied? = some token)
    (cs : List Char) :
    ∃ tail, lexer.rest (token.supply.toList ++ cs) = lexer.mode.close lexer.place.location ++
      .lexeme ⟨token, ⟨lexer.place.location,
        (lexer.place.after token.spelling.toList).location⟩⟩ :: tail := by
  cases wanted with
  | arrow =>
      cases hToken
      obtain ⟨flag, hRest⟩ := rest_begin hMode (c := '-') (by decide) ('>' :: cs)
      exact ⟨_, hRest⟩
  | boundComma | mapComma | baseComma | lambdaComma =>
      cases hToken
      obtain ⟨flag, hRest⟩ := rest_begin hMode (c := ',') (by decide) (' ' :: cs)
      exact ⟨_, hRest⟩
  | leftParen =>
      cases hToken
      obtain ⟨flag, hRest⟩ := rest_begin hMode (c := '(') (by decide) cs
      exact ⟨_, hRest⟩
  | rightParen =>
      cases hToken
      obtain ⟨flag, hRest⟩ := rest_begin hMode (c := ')') (by decide) cs
      exact ⟨_, hRest⟩
  | rightBrace =>
      cases hToken
      obtain ⟨flag, hRest⟩ := rest_begin hMode (c := '}') (by decide) cs
      exact ⟨_, hRest⟩
  | statement | text | target | assign | expression | parameter => cases hToken

end Supply

/-- What is read on the line of a comment belongs to it. -/
theorem rest_comment {lexer : Lexer} {start : Location} {read cs : List Char}
    (hMode : lexer.mode = .comment start read) (hLine : ∀ c ∈ cs, endsLine c = false) :
    ∃ longer last : Lexeme, lexer.rest cs = [.lexeme longer, .lexeme last] ∧
      longer.token.isComment = true ∧ longer.span.stop = (lexer.place.after cs).location ∧
      last.token = .finish := by
  induction cs generalizing lexer read with
  | nil =>
      rw [rest_nil, hMode]
      exact ⟨_, _, rfl, rfl, rfl, rfl⟩
  | cons c cs ih =>
      obtain ⟨hc, hRest⟩ := List.forall_mem_cons.mp hLine
      have hStep : lexer.step c =
          ([], ⟨lexer.place.advance c, lexer.afterOperand, .comment start (c :: read)⟩) := by
        simp [step, hMode, Mode.extend?, hc]
      rw [rest_cons, hStep, List.nil_append]
      exact ih rfl hRest

/-- Comments that are complete end before the place that was reached: the line end after them has been
read. While a comment is being read, what was read last is no line end. -/
structure CommentsPassed (written : List Lexed) (lexer : Lexer) : Prop where
  stop_lt : ∀ y ∈ lexemes written, y.token.isComment = true → y.span.stop < lexer.place.location
  fresh : lexer.mode.isComment = true → lexer.place.afterReturn = false

theorem CommentsPassed.step {written : List Lexed} {lexer : Lexer} (h : CommentsPassed written lexer)
    (c : Char) : CommentsPassed (written ++ (lexer.step c).1) (lexer.step c).2 := by
  have hKept (y : Lexeme) (hy : y ∈ lexemes written) (hComment : y.token.isComment = true) :
      y.span.stop < (lexer.step c).2.place.location := by
    rw [step_place]
    exact (h.stop_lt y hy hComment).trans_le (lexer.place.location_le_advance c)
  have hQuiet (hHere : Uncommented (lexer.step c).1)
      (hFresh : (lexer.step c).2.mode.isComment = true → endsLine c = false) :
      CommentsPassed (written ++ (lexer.step c).1) (lexer.step c).2 := by
    refine ⟨fun y hy hComment => ?_, fun hInside => ?_⟩
    · rw [lexemes_append] at hy
      rcases List.mem_append.mp hy with hBefore | hNew
      · exact hKept y hBefore hComment
      · exact absurd hComment (by simp [hHere.isComment_of_mem hNew])
    · rw [step_place, Bool.eq_false_iff, Ne, Place.afterReturn_advance]
      rintro rfl
      cases hFresh hInside
  cases lexer.remarks c with
  | none hMode hNext hWritten => exact hQuiet hWritten fun hInside => by simp [hNext] at hInside
  | opens hMode hLine hWritten hStep hSpace => exact hQuiet (by rwa [hStep]) fun _ => hLine
  | inside hMode hLine hStep => exact hQuiet (by simp [hStep, Uncommented]) fun _ => hLine
  | closes hMode hLine hStep =>
      -- The line end moves the place, since it is not the second half of one.
      have hMoves : lexer.place.location < (lexer.place.advance c).location := by
        by_cases hFeed : c = '\n'
        · rw [Place.advance, if_pos hFeed, h.fresh (by rw [hMode]; rfl)]
          exact .inl (Nat.lt_succ_self _)
        · exact lexer.place.location_lt_advance hFeed
      refine ⟨fun y hy hComment => ?_, by simp [hStep, Mode.isComment]⟩
      rw [lexemes_append] at hy
      rcases List.mem_append.mp hy with hBefore | hNew
      · exact hKept y hBefore hComment
      · rw [hStep] at hNew ⊢
        cases List.mem_singleton.mp hNew
        exact hMoves

theorem commentsPassed (read : List Char) :
    CommentsPassed (transduce step first read).1 (transduce step first read).2 := by
  have hFirst : CommentsPassed [] first := ⟨by simp [lexemes], by simp [first, Mode.isComment]⟩
  exact transduce_history CommentsPassed (fun _ _ c h => h.step c) read hFirst

end Lexer

/-- An insertion at a lexeme stands where the text can be cut in front of it. -/
theorem FixIt.toList_apply {source : String} {x : Lexeme} {items : List Lexed}
    (cut : Lexer.first.Cut source.toList x items) (insertion : String) :
    (apply ⟨x.span.start, insertion⟩ source).toList =
      cut.before ++ (insertion.toList ++ cut.after) := by
  have hPlace : (Place.first.after cut.before).location = x.span.start := by
    rw [cut.start, cut.place_eq rfl]
    rfl
  calc (apply ⟨x.span.start, insertion⟩ source).toList
      = insertInto ⟨x.span.start, insertion⟩ Place.first source.toList := String.toList_ofList
    _ = insertInto ⟨x.span.start, insertion⟩ Place.first (cut.before ++ cut.after) :=
        congrArg _ cut.text
    _ = cut.before ++ (insertion.toList ++ cut.after) :=
        insertInto_append hPlace fun c hc => (cut.next c hc).1

theorem lex_apply {source : String} {x : Lexeme} {items : List Lexed}
    (cut : Lexer.first.Cut source.toList x items) (insertion : String) :
    lex (FixIt.apply ⟨x.span.start, insertion⟩ source) =
      cut.written ++ cut.reached.rest (insertion.toList ++ cut.after) := by
  rw [lex_eq_rest, FixIt.toList_apply cut, cut.rest_before]

namespace Lexer.Cut

variable {cs : List Char} {x : Lexeme} {items : List Lexed} (cut : Lexer.first.Cut cs x items)

/-- If a comment ends where the lexeme begins, it is being read there. -/
theorem reached_comment {y : Lexeme} (hy : y ∈ lexemes cut.closed)
    (hComment : y.token.isComment = true) (hStop : y.span.stop = x.span.start) :
    ∃ start read, cut.reached.mode = .comment start read := by
  rw [closed, lexemes_append] at hy
  rcases List.mem_append.mp hy with hWritten | hClose
  · have hPassed := commentsPassed cut.before
    rw [cut.run] at hPassed
    have hLt := hPassed.stop_lt y hWritten hComment
    rw [hStop, cut.start] at hLt
    exact absurd hLt (lt_irrefl _)
  · cases hMode : cut.reached.mode with
    | comment start read => exact ⟨start, read, rfl⟩
    | _ =>
        rw [hMode] at hClose
        have hOther := (Mode.close_uncommented rfl _).isComment_of_mem hClose
        simp [hOther] at hComment

/-- A comment goes on to the end of its line, so the text ends where a lexeme begins in one. -/
theorem after_comment {start : Location} {read : List Char}
    (hMode : cut.reached.mode = .comment start read) : cut.after = [] := by
  cases hAfter : cut.after with
  | nil => rfl
  | cons c after =>
      obtain ⟨hBlank, hExtends⟩ := cut.next c (by simp [hAfter])
      refine absurd ?_ hExtends
      have hLine : endsLine c = false := by
        rw [Bool.eq_false_iff]
        intro hLine
        simp [isBlank_of_endsLine hLine] at hBlank
      simp [Extends, hMode, Mode.extend?, hLine]

variable {events : List Event} {parser : Parser}
  (hRun : transduce Parser.feed Parser.first cut.closed = (events, parser))

include hRun

theorem transduce_items :
    transduce Parser.feed Parser.first items = (events ++ cut.log.map .report, parser) := by
  have hItems : items = cut.closed ++ cut.log.map .report := cut.split
  conv => lhs; rw [hItems, transduce_append, hRun, Parser.transduce_reports]

/-- A lexeme that is reported stands in no text literal, and in a comment only if one ends there. -/
theorem reached_takesAll (hReport : reports (parser.step x).1 ≠ [])
    (hComment : ∀ y ∈ lexemes cut.closed, y.token.isComment = true →
      y.span.stop ≠ x.span.start) : cut.reached.takesAll = false := by
  rw [Bool.eq_false_iff]
  intro hTakesAll
  rcases close_of_takesAll hTakesAll cut.reached.place.location with
    ⟨d, content, start, hClose, hExtends⟩ | ⟨content, start, hClose⟩
  · cases hAfter : cut.after with
    | cons c after => exact (cut.next c (by simp [hAfter])).2 (hExtends c)
    | nil =>
        rw [closed, hClose] at hRun
        exact hReport (Parser.reports_after_text hRun (cut.ended hAfter))
  · refine hComment ⟨.comment content, ⟨start, cut.reached.place.location⟩⟩ ?_ rfl cut.start.symm
    simp [closed, hClose, lexemes, Lexed.lexeme?]

end Lexer.Cut

/-- A text and the text with an insertion, side by side. Before the insertion both are written with the
same items, and the same events and the same parser come of them. The insertion is then read as the
token that was missing, from its location on, and the parser that refused what it had found takes
it. -/
structure Repair (source : String) (d : Diagnostic) (fix : FixIt) where
  wanted : Wanted
  before : List Lexed
  /-- The reports about the characters of what was found. -/
  log : Log
  found : Lexeme
  rest : List Lexed
  supplied : Lexeme
  mended : List Lexed
  events : List Event
  parser : Parser
  next : Parser
  report : d = Parser.missing wanted found
  location : fix.location = found.span.start
  token : wanted.supplied? = some supplied.token
  insertion : fix.insertion = supplied.token.supply
  span : supplied.span = ⟨fix.location,
    ⟨fix.location.line, fix.location.column + supplied.token.spelling.length⟩⟩
  lexed : lex source = before ++ log.map .report ++ .lexeme found :: rest
  relexed : lex (fix.apply source) = before ++ .lexeme supplied :: mended
  run : transduce Parser.feed Parser.first before = (events, parser)
  clean : (reports events).of [.parse] = []
  refused : d ∈ reports (parser.step found).1
  taken : parser.step supplied = ([], next)
  parsed : parse source =
    events ++ log.map .report ++ (transduce Parser.feed parser (.lexeme found :: rest)).1
  reparsed : parse (fix.apply source) = events ++ (transduce Parser.feed next mended).1

/-- A text that ends with a comment, and the text with an insertion at its end, side by side. The
insertion belongs to the comment, and what was missing is still missing at the new end. -/
structure Swallowed (source : String) (d : Diagnostic) (fix : FixIt) where
  wanted : Wanted
  before : List Lexed
  comment : Lexeme
  found : Lexeme
  longer : Lexeme
  again : Lexeme
  report : d = Parser.missing wanted found
  lexed : lex source = before ++ [.lexeme comment, .lexeme found]
  relexed : lex (fix.apply source) = before ++ [.lexeme longer, .lexeme again]
  isComment : comment.token.isComment = true ∧ longer.token.isComment = true
  isFinish : found.token = .finish ∧ again.token = .finish
  location : fix.location = comment.span.stop ∧ fix.location < longer.span.stop
  repeated : ((reports (parse (fix.apply source))).of [.parse]).head? =
    some (Parser.missing wanted again)

/-- The first report about tokens, at the cut in front of the lexeme that was found in place of a token
that can be supplied. -/
structure Missed (source : String) (d : Diagnostic) where
  wanted : Wanted
  token : Token
  found : Lexeme
  items : List Lexed
  rest : List Lexed
  cut : Lexer.first.Cut source.toList found items
  events : List Event
  parser : Parser
  report : d = Parser.missing wanted found
  supplied : wanted.supplied? = some token
  significant : found.token.isComment = false
  lexed : lex source = items ++ .lexeme found :: rest
  run : transduce Parser.feed Parser.first cut.closed = (events, parser)
  clean : (reports events).of [.parse] = []
  refused : d ∈ reports (parser.step found).1
  takes : ∀ y : Lexeme, y.token = token → ∃ next, parser.step y = ([], next)
  again : ∀ y : Lexeme, y.token = found.token →
    (reports (parser.step y).1).head? = some (Parser.missing wanted y)

theorem exists_missed {source : String} {d : Diagnostic}
    (hFirst : ((reports (parse source)).of [.parse]).head? = some d) (hFix : d.fixIt ≠ none) :
    Nonempty (Missed source d) := by
  obtain ⟨items, x, rest, hLex, hx, hClean, hReport⟩ :=
    Parser.exists_first_report (lex_lexical source) hFirst
  rcases Lexer.exists_cut hLex with ⟨hHand, -⟩ | ⟨⟨cut⟩⟩
  · cases hHand
  obtain ⟨events, parser, hRun⟩ :
      ∃ events parser, transduce Parser.feed Parser.first cut.closed = (events, parser) :=
    ⟨_, _, rfl⟩
  rw [cut.transduce_items hRun] at hClean hReport
  rw [reports_append, Log.of_append, List.append_eq_nil_iff] at hClean
  obtain ⟨wanted, token, hMissing, hToken, hTakes, hAgain⟩ :=
    parser.offers_step hReport hFix
  exact ⟨⟨wanted, token, x, items, rest, cut, events, parser, hMissing, hToken, hx, hLex, hRun,
    hClean.1, hReport, hTakes, hAgain⟩⟩

namespace Missed

variable {source : String} {d : Diagnostic} (missed : Missed source d)

theorem fix_eq {fix : FixIt} (hFix : d.fixIt = some fix) :
    fix = ⟨missed.found.span.start, missed.token.supply⟩ := by
  rw [missed.report, Parser.missing, Wanted.insertion?_eq, missed.supplied] at hFix
  exact (Option.some.inj hFix).symm

theorem lex_eq : lex source = missed.cut.closed ++ missed.cut.log.map .report ++
    .lexeme missed.found :: missed.rest :=
  missed.lexed.trans (congrArg (· ++ _) missed.cut.split)

/-- Where no comment ends, the insertion is read as the token and taken. -/
theorem repair (hComment : ∀ y ∈ lexemes (lex source), y.token.isComment = true →
      y.span.stop ≠ missed.found.span.start) :
    Nonempty (Repair source d ⟨missed.found.span.start, missed.token.supply⟩) := by
  have hOpen : missed.cut.reached.takesAll = false := by
    refine missed.cut.reached_takesAll missed.run (List.ne_nil_of_mem missed.refused)
      fun y hy => hComment y ?_
    rw [missed.lex_eq]
    simp [hy]
  obtain ⟨mended, hMended⟩ := Lexer.rest_supply hOpen missed.supplied missed.cut.after
  have hRelexed : lex (FixIt.apply ⟨missed.found.span.start, missed.token.supply⟩ source) =
      missed.cut.closed ++ .lexeme ⟨missed.token, ⟨missed.cut.reached.place.location,
        (missed.cut.reached.place.after missed.token.spelling.toList).location⟩⟩ :: mended := by
    rw [lex_apply missed.cut, hMended, Lexer.Cut.closed, List.append_assoc]
  rw [Wanted.after_supplied missed.supplied, ← missed.cut.start] at hRelexed
  obtain ⟨next, hTaken⟩ := missed.takes ⟨missed.token, ⟨missed.found.span.start,
    ⟨missed.found.span.start.line,
      missed.found.span.start.column + missed.token.spelling.length⟩⟩⟩ rfl
  refine ⟨⟨missed.wanted, missed.cut.closed, missed.cut.log, missed.found, missed.rest, _, mended,
    missed.events, missed.parser, next, missed.report, rfl, missed.supplied, rfl, rfl,
    missed.lex_eq, hRelexed, missed.run, missed.clean, missed.refused, hTaken, ?_, ?_⟩⟩
  · rw [parse, missed.lex_eq, transduce_append, transduce_append, missed.run,
      Parser.transduce_reports]
  · rw [parse, hRelexed, transduce_append, missed.run, transduce_cons, Parser.feed,
      if_neg (by simp [(Wanted.plain_supplied missed.supplied).2]), hTaken, List.nil_append]

/-- A comment that ends where the lexeme begins is written before it. -/
theorem mem_closed {y : Lexeme} (hy : y ∈ lexemes (lex source))
    (hComment : y.token.isComment = true) (hStop : y.span.stop = missed.found.span.start) :
    y ∈ lexemes missed.cut.closed := by
  have hReports : lexemes (missed.cut.log.map .report) = [] := by
    simp [lexemes, List.filterMap_map, Function.comp_def, Lexed.lexeme?]
  have hLexemes : lexemes (lex source) =
      lexemes missed.cut.closed ++ missed.found :: lexemes missed.rest := by
    rw [missed.lex_eq, lexemes_append, lexemes_append, hReports, List.append_nil]
    rfl
  obtain ⟨covered, gap, xs, -, hTiled, hTiles⟩ := lex_tiled source
  have hOrdered := lexemes_ordered source
  have hRoom : y.span.start < y.span.stop := by
    rw [hTiles] at hy
    rcases List.mem_append.mp hy with hMem | hLast
    · exact hTiled.start_lt_stop y hMem
    · rw [List.mem_singleton.mp hLast] at hComment
      cases hComment
  rw [hLexemes] at hy hOrdered
  rcases List.mem_append.mp hy with hBefore | hLater
  · exact hBefore
  rcases List.mem_cons.mp hLater with rfl | hAfter
  · exact absurd hComment (by simp [missed.significant])
  · have hFound := (List.pairwise_cons.mp (List.pairwise_append.mp hOrdered).2.1).1 y hAfter
    rw [← hStop] at hFound
    exact absurd (hRoom.trans hFound.2) (lt_irrefl _)

/-- A comment that ends at the insertion swallows it. -/
theorem swallowed {y : Lexeme} (hy : y ∈ lexemes (lex source))
    (hComment : y.token.isComment = true) (hStop : y.span.stop = missed.found.span.start) :
    Nonempty (Swallowed source d ⟨missed.found.span.start, missed.token.supply⟩) := by
  obtain ⟨start, read, hMode⟩ :=
    missed.cut.reached_comment (missed.mem_closed hy hComment hStop) hComment hStop
  have hAfter := missed.cut.after_comment hMode
  obtain ⟨⟨c, cs, hSupply, hBlank⟩, hLine⟩ := Wanted.supply_line missed.supplied
  obtain ⟨longer, last, hRest, hLonger, hLongerStop, hLast⟩ := Lexer.rest_comment hMode hLine
  have hClosed : missed.cut.closed = missed.cut.written ++ [.lexeme ⟨.comment
      (String.ofList read.reverse), ⟨start, missed.cut.reached.place.location⟩⟩] := by
    rw [Lexer.Cut.closed, hMode]
    rfl
  have hLexed : lex source = missed.cut.closed ++
      [.lexeme ⟨.finish, .point missed.cut.reached.place.location⟩] := by
    rw [lex_eq_rest, missed.cut.rest_eq, hAfter, Lexer.rest_nil, ← List.append_assoc]
    rfl
  have hFound : missed.found = ⟨.finish, .point missed.cut.reached.place.location⟩ := by
    have hSame := missed.lex_eq.symm.trans hLexed
    rw [List.append_assoc, List.append_cancel_left_eq] at hSame
    cases hLog : missed.cut.log with
    | nil =>
        rw [hLog] at hSame
        exact Lexed.lexeme.inj (List.cons.inj hSame).1
    | cons e log => simp [hLog] at hSame
  have hRelexed := lex_apply missed.cut missed.token.supply
  rw [hAfter, List.append_nil, hRest] at hRelexed
  have hRun := missed.run
  rw [hClosed, Parser.transduce_comment rfl] at hRun
  rw [hClosed, List.append_assoc, ← hFound] at hLexed
  have hReparsed : parse (FixIt.apply ⟨missed.found.span.start, missed.token.supply⟩ source) =
      missed.events ++ (missed.parser.step last).1 := by
    rw [parse, hRelexed, ← List.singleton_append, ← List.append_assoc, transduce_append,
      Parser.transduce_comment hLonger, hRun, transduce_cons, Parser.feed,
      if_neg (by simp [hLast, Token.isComment])]
    simp
  have hStage : (reports (missed.parser.step last).1).of [.parse] =
      reports (missed.parser.step last).1 :=
    Log.of_eq_self fun e he => by simp [(missed.parser.explained_step last).stage e he]
  refine ⟨⟨missed.wanted, missed.cut.written, _, missed.found, longer, last, missed.report, hLexed,
    hRelexed, ⟨rfl, hLonger⟩, ⟨missed.cut.ended hAfter, hLast⟩, ⟨missed.cut.start, ?_⟩, ?_⟩⟩
  · rw [hLongerStop, hSupply]
    exact missed.cut.start ▸ Place.location_lt_after _ hBlank cs
  · rw [hReparsed, reports_append, Log.of_append, missed.clean, List.nil_append, hStage]
    exact missed.again last (hLast.trans (missed.cut.ended hAfter).symm)

end Missed

/-- Where the first report about tokens offers an insertion, the insertion mends what was reported,
unless a comment ends right there. Such a comment ends with the text and swallows the insertion. -/
theorem insertion_supplies_missing {source : String} {d : Diagnostic} {fix : FixIt}
    (hFirst : ((reports (parse source)).of [.parse]).head? = some d) (hFix : d.fixIt = some fix) :
    ((∀ y ∈ lexemes (lex source), y.token.isComment = true → y.span.stop ≠ fix.location) →
        Nonempty (Repair source d fix)) ∧
      ((∃ y ∈ lexemes (lex source), y.token.isComment = true ∧ y.span.stop = fix.location) →
        Nonempty (Swallowed source d fix)) := by
  obtain ⟨missed⟩ := exists_missed hFirst (by simp [hFix])
  obtain rfl := missed.fix_eq hFix
  constructor
  · exact missed.repair
  · rintro ⟨y, hy, hComment, hStop⟩
    exact missed.swallowed hy hComment hStop

/-- The arrow goes behind a comment and a line end of two characters, and the minus sign that was found
in its place becomes the sign of a literal. -/
theorem insertion_supplies_missing_arrow :
    ∃ (source : String) (d : Diagnostic) (fix : FixIt),
      source = "out reduce(\x7b1, 2\x7d, 0, a b # sum\r\n-1)" ∧ fix = ⟨⟨2, 1⟩, "->"⟩ ∧
      fix.apply source = "out reduce(\x7b1, 2\x7d, 0, a b # sum\r\n->-1)" ∧
      ((reports (parse source)).of [.parse]).head? = some d ∧ d.fixIt = some fix ∧
      (∀ y ∈ lexemes (lex source), y.token.isComment = true → y.span.stop ≠ fix.location) ∧
      Nonempty (Repair source d fix) := by
  have hFirst : ((reports (parse "out reduce(\x7b1, 2\x7d, 0, a b # sum\r\n-1)")).of
      [.parse]).head? = some (Parser.missing .arrow ⟨.operator .sub, ⟨⟨2, 1⟩, ⟨2, 2⟩⟩⟩) := by
    decide +kernel
  have hComment : ∀ y ∈ lexemes (lex "out reduce(\x7b1, 2\x7d, 0, a b # sum\r\n-1)"),
      y.token.isComment = true → y.span.stop ≠ ⟨2, 1⟩ := by
    decide +kernel
  exact ⟨_, _, _, rfl, rfl, by decide +kernel, hFirst, rfl, hComment,
    (insertion_supplies_missing hFirst rfl).1 hComment⟩

/-- A parenthesis that is inserted at the end of a comment belongs to the comment, and the report comes
up again. -/
theorem insertion_lost_in_comment :
    reports (parse "out (1 #") = [Parser.missing .rightParen ⟨.finish, .point ⟨1, 9⟩⟩] ∧
      (Parser.missing .rightParen ⟨.finish, .point ⟨1, 9⟩⟩).fixIt = some ⟨⟨1, 9⟩, ")"⟩ ∧
      FixIt.apply ⟨⟨1, 9⟩, ")"⟩ "out (1 #" = "out (1 #)" ∧
      reports (parse "out (1 #)") = [Parser.missing .rightParen ⟨.finish, .point ⟨1, 10⟩⟩] := by
  decide +kernel

end Progression
