import Progression.Proofs.Repairs

/-! Text literals. Between the quotes stand characters that mean themselves and backslashes, each with
the character after it. A literal is read piece by piece up to what ends it: a pair of characters that
means nothing is reported and left out, and a literal without its second quote is reported and ends with
its line or with the text. -/

namespace Progression

namespace Lexer

/-- The characters that have a meaning after a backslash, each with its meaning. -/
def escapes : List (Char × Char) :=
  [('t', '\t'), ('b', '\x08'), ('n', '\n'), ('r', '\r'), ('f', '\x0c'), ('\'', '\''), ('"', '"'),
    ('\\', '\\')]

/-- Whether the character means itself in a text literal. -/
def meansItself (c : Char) : Bool := !(c = '"' || c = '\\' || c = '\n' || c = '\r')

theorem escaped?_of_mem {c meaning : Char} (h : (c, meaning) ∈ escapes) :
    escaped? c = some meaning := by
  have hAll : ∀ entry ∈ escapes, escaped? entry.1 = some entry.2 := by decide
  exact hAll _ h

theorem escaped?_of_notMem {c : Char} (h : c ∉ escapes.map Prod.fst) : escaped? c = none := by
  simp only [escapes, List.map_cons, List.map_nil, List.mem_cons, List.not_mem_nil, not_or] at h
  simp [escaped?, h]

theorem meansItself_iff {c : Char} :
    meansItself c = true ↔ c ≠ '"' ∧ c ≠ '\\' ∧ c ≠ '\n' ∧ c ≠ '\r' := by
  simp [meansItself, and_assoc]

end Lexer

/-- A piece of a text literal: a character that means itself, or a backslash with a character that has a
meaning after it or has none. -/
inductive Piece where
  | plain (c : Char) (h : Lexer.meansItself c = true)
  | known (c meaning : Char) (h : (c, meaning) ∈ Lexer.escapes)
  | unknown (c : Char) (h : c ∉ Lexer.escapes.map Prod.fst)

namespace Piece

/-- The characters that the piece is written with. -/
def spell : Piece → List Char
  | plain c _ => [c]
  | known c _ _ | unknown c _ => ['\\', c]

/-- The character that the piece stands for. -/
def meaning? : Piece → Option Char
  | plain c _ => some c
  | known _ meaning _ => some meaning
  | unknown _ _ => none

/-- The report about a piece that begins at a place. -/
def report? (place : Place) : Piece → Option Diagnostic
  | plain _ _ | known _ _ _ => none
  | unknown c _ => some ⟨.lex (.unknownEscape c),
      ⟨place.location, (place.after ['\\', c]).location⟩, none⟩

/-- The reports about pieces of which the first begins at a place. -/
def reports (place : Place) : List Piece → Log
  | [] => []
  | piece :: pieces => (piece.report? place).toList ++ reports (place.after piece.spell) pieces

/-- A piece that stands for the character. -/
def ofChar (c : Char) : Piece :=
  if hQuote : c = '"' then known '"' c (by simp [hQuote, Lexer.escapes])
  else if hBackslash : c = '\\' then known '\\' c (by simp [hBackslash, Lexer.escapes])
  else if hFeed : c = '\n' then known 'n' c (by simp [hFeed, Lexer.escapes])
  else if hReturn : c = '\r' then known 'r' c (by simp [hReturn, Lexer.escapes])
  else plain c (Lexer.meansItself_iff.mpr ⟨hQuote, hBackslash, hFeed, hReturn⟩)

theorem ofChar_meaning? (c : Char) : (ofChar c).meaning? = some c := by
  unfold ofChar
  split_ifs <;> rfl

theorem ofChar_report? (place : Place) (c : Char) : (ofChar c).report? place = none := by
  unfold ofChar
  split_ifs <;> rfl

theorem reports_ofChar (place : Place) (cs : List Char) : reports place (cs.map ofChar) = [] := by
  induction cs generalizing place with
  | nil => rfl
  | cons c cs ih => simp [reports, ofChar_report?, ih]

end Piece

/-- What ends a text literal. -/
inductive Ending where
  | quote
  | lineFeed
  | carriageReturn
  | finish
  | backslash

namespace Ending

/-- The characters that are read with the ending. -/
def spell : Ending → List Char
  | quote => ['"']
  | lineFeed => ['\n']
  | carriageReturn => ['\r']
  | finish => []
  | backslash => ['\\']

/-- What is wrong with a literal that ends so. -/
def cause? : Ending → Option LexError
  | quote => none
  | lineFeed | carriageReturn => some .endOfLine
  | finish | backslash => some .endOfText

/-- Whether the literal ends with the text. -/
def isFinal : Ending → Bool
  | finish | backslash => true
  | _ => false

end Ending

/-- A text literal as it is written. -/
structure TextLiteral where
  pieces : List Piece
  ending : Ending

namespace TextLiteral

/-- The characters of the literal. -/
def spell (literal : TextLiteral) : List Char :=
  '"' :: (literal.pieces.flatMap Piece.spell ++ literal.ending.spell)

/-- The text that the literal stands for. -/
def content (literal : TextLiteral) : String :=
  String.ofList (literal.pieces.filterMap Piece.meaning?)

/-- The reports about the literal if it begins at a place: one about every piece without a meaning, and
one about the whole unless it ends with a quote. -/
def reports (place : Place) (literal : TextLiteral) : Log :=
  Piece.reports (place.advance '"') literal.pieces ++
    (literal.ending.cause?.map fun cause => ⟨.lex cause, .point place.location, none⟩).toList

/-- The literal that stands for a text. -/
def ofContent (content : String) : TextLiteral := ⟨content.toList.map Piece.ofChar, .quote⟩

theorem content_ofContent (content : String) : (ofContent content).content = content := by
  have hMeaning : Piece.meaning? ∘ Piece.ofChar = some := funext Piece.ofChar_meaning?
  rw [TextLiteral.content, ofContent, List.filterMap_map, hMeaning, List.filterMap_some,
    String.ofList_toList]

theorem reports_ofContent (place : Place) (content : String) :
    (ofContent content).reports place = [] := by
  rw [reports, ofContent, Piece.reports_ofChar]
  rfl

end TextLiteral

namespace Lexer

variable {place : Place} {flag : Bool} {start : Location}

/-- Reading one piece of a literal. -/
theorem transduce_piece (piece : Piece) (read : List Char) :
    transduce step ⟨place, flag, .text start read⟩ piece.spell =
      ((piece.report? place).toList.map .report,
        ⟨place.after piece.spell, flag, .text start (piece.meaning?.toList ++ read)⟩) := by
  cases piece with
  | plain c h =>
      obtain ⟨hQuote, hBackslash, hFeed, hReturn⟩ := meansItself_iff.mp h
      simp [Piece.spell, Piece.report?, Piece.meaning?, transduce_cons, step, Mode.extend?, endsLine,
        hQuote, hBackslash, hFeed, hReturn]
  | known c meaning h =>
      simp [Piece.spell, Piece.report?, Piece.meaning?, transduce_cons, step, Mode.extend?, endsLine,
        escaped?_of_mem h]
  | unknown c h =>
      simp [Piece.spell, Piece.report?, Piece.meaning?, transduce_cons, step, Mode.extend?, endsLine,
        escaped?_of_notMem h, Lexed.error, Lexed.afterOperand]

/-- Reading the pieces of a literal one after the other. -/
theorem transduce_pieces (pieces : List Piece) (read : List Char) :
    transduce step ⟨place, flag, .text start read⟩ (pieces.flatMap Piece.spell) =
      ((Piece.reports place pieces).map .report,
        ⟨place.after (pieces.flatMap Piece.spell), flag,
          .text start ((pieces.filterMap Piece.meaning?).reverse ++ read)⟩) := by
  induction pieces generalizing place read with
  | nil => rfl
  | cons piece pieces ih =>
      have hMeanings : (((piece :: pieces).filterMap Piece.meaning?).reverse ++ read) =
          (pieces.filterMap Piece.meaning?).reverse ++ (piece.meaning?.toList ++ read) := by
        cases hMeaning : piece.meaning? <;> simp [hMeaning]
      rw [List.flatMap_cons, transduce_append, transduce_piece, ih, hMeanings, Piece.reports,
        List.map_append, Place.after_append]

/-- The ending completes the literal, and the rest of the text is read afresh. -/
theorem rest_ending (ending : Ending) (read rest : List Char)
    (hRest : ending.isFinal = true → rest = []) :
    (⟨place, flag, .text start read⟩ : Lexer).rest (ending.spell ++ rest) =
      (ending.cause?.map fun cause => (⟨.lex cause, .point start, none⟩ : Diagnostic)).toList.map
          .report ++
        .lexeme ⟨.text (String.ofList read.reverse), ⟨start, (place.after ending.spell).location⟩⟩ ::
          (⟨place.after ending.spell, true, .between⟩ : Lexer).rest rest := by
  cases ending with
  | quote | lineFeed | carriageReturn => exact rest_cons _ _ _
  | finish | backslash =>
      rw [hRest rfl]
      rfl

/-- A quote begins a literal wherever not everything belongs to what is being read. -/
theorem rest_quote {lexer : Lexer} (h : lexer.takesAll = false) (cs : List Char) :
    ∃ flag, lexer.rest ('"' :: cs) = lexer.mode.close lexer.place.location ++
      (⟨lexer.place.advance '"', flag, .text lexer.place.location []⟩ : Lexer).rest cs :=
  rest_begin h (by decide) cs

theorem rest_literal {lexer : Lexer} (hLexer : lexer.takesAll = false) (literal : TextLiteral)
    {rest : List Char} (hRest : literal.ending.isFinal = true → rest = []) :
    lexer.rest (literal.spell ++ rest) =
      lexer.mode.close lexer.place.location ++ (literal.reports lexer.place).map .report ++
        .lexeme ⟨.text literal.content,
          ⟨lexer.place.location, (lexer.place.after literal.spell).location⟩⟩ ::
        (⟨lexer.place.after literal.spell, true, .between⟩ : Lexer).rest rest := by
  obtain ⟨flag, hQuote⟩ := rest_quote hLexer
    (literal.pieces.flatMap Piece.spell ++ (literal.ending.spell ++ rest))
  rw [rest_append, transduce_pieces, rest_ending _ _ _ hRest] at hQuote
  simpa [TextLiteral.spell, TextLiteral.reports, TextLiteral.content] using hQuote

end Lexer

/-- Text literals are decoded exactly. Wherever a literal can begin, and whatever follows it, it is read
as the text of the characters that its pieces stand for, from its first character to its last. Before it
there is a report about every piece without a meaning, in their order and with their spans, and then one
at the start of the literal unless it ends with a quote. The rest of the text is read as it is after a
token that ends an operand. Every text is what some literal stands for about which nothing is
reported. -/
theorem text_literals_decode :
    (∀ (lexer : Lexer) (literal : TextLiteral) (rest : List Char), lexer.takesAll = false →
      (literal.ending.isFinal = true → rest = []) →
      lexer.rest (literal.spell ++ rest) =
        lexer.mode.close lexer.place.location ++ (literal.reports lexer.place).map .report ++
          .lexeme ⟨.text literal.content,
            ⟨lexer.place.location, (lexer.place.after literal.spell).location⟩⟩ ::
          (⟨lexer.place.after literal.spell, true, .between⟩ : Lexer).rest rest) ∧
    ∀ content : String, ∃ (literal : TextLiteral) (stop : Location),
      lex (String.ofList literal.spell) =
        [.token (.text content) .first stop, .token .finish stop stop] := by
  refine ⟨fun lexer literal rest hLexer hRest => Lexer.rest_literal hLexer literal hRest,
    fun content => ?_⟩
  have hFirst : Lexer.first.takesAll = false := rfl
  have hRead := Lexer.rest_literal hFirst (.ofContent content) (fun _ => rfl)
  rw [TextLiteral.content_ofContent, TextLiteral.reports_ofContent, List.append_nil] at hRead
  refine ⟨.ofContent content, (Place.first.after (TextLiteral.ofContent content).spell).location, ?_⟩
  rw [lex_eq_rest, String.toList_ofList]
  exact hRead

/-- Directly after a name a literal begins that holds two escapes without a meaning, one of them with a
line feed, and is broken off by a carriage return, whose line feed is left to read. -/
theorem text_literals_decode_broken :
    (⟨⟨⟨1, 2⟩, false⟩, false, .name ⟨1, 1⟩ ['x']⟩ : Lexer).takesAll = false ∧
      (⟨⟨⟨1, 2⟩, false⟩, false, .name ⟨1, 1⟩ ['x']⟩ : Lexer).rest
          "\"a\\q\\\n\\\"\r\n-1".toList =
        [.token (.identifier "x") ⟨1, 1⟩ ⟨1, 2⟩,
          .error (.unknownEscape 'q') ⟨⟨1, 4⟩, ⟨1, 6⟩⟩,
          .error (.unknownEscape '\n') ⟨⟨1, 6⟩, ⟨2, 1⟩⟩,
          .error .endOfLine (.point ⟨1, 2⟩),
          .token (.text "a\"") ⟨1, 2⟩ ⟨3, 1⟩,
          .token (.operator .sub) ⟨3, 1⟩ ⟨3, 2⟩, .token (.int "1") ⟨3, 2⟩ ⟨3, 3⟩,
          .token .finish ⟨3, 3⟩ ⟨3, 3⟩] := by
  have hRead := text_literals_decode.1 ⟨⟨⟨1, 2⟩, false⟩, false, .name ⟨1, 1⟩ ['x']⟩
    ⟨[.plain 'a' rfl, .unknown 'q' (by decide), .unknown '\n' (by decide),
      .known '"' '"' (by decide)], .carriageReturn⟩ ['\n', '-', '1'] rfl (by simp [Ending.isFinal])
  exact ⟨rfl, hRead.trans rfl⟩

end Progression
