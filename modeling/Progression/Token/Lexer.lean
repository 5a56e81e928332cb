import Progression.Diagnostic
import Progression.Text.Blank
import Progression.Token
import Progression.Transducer

/-! From characters to lexemes. The lexer reads one character at a time. A character either
belongs to the lexeme being read or ends it and begins the next, so what has been read of a text
never depends on what follows. -/

namespace Progression

/-- An item of a lexed text. The reports about a lexeme stand before it. -/
inductive Lexed where
  | report (d : Diagnostic)
  | lexeme (x : Lexeme)
deriving DecidableEq

namespace Lexed

/-- A report of a lexical cause. -/
def error (cause : LexError) (span : Span) : Lexed := report ⟨.lex cause, span, none⟩

/-- A token that stands between two locations. -/
def token (token : Token) (start stop : Location) : Lexed := lexeme ⟨token, ⟨start, stop⟩⟩

/-- Whether the last token that is no comment ends an operand, given whether the last one before
this item did. -/
def afterOperand (before : Bool) : Lexed → Bool
  | report _ => before
  | lexeme x => if x.token.isComment then before else x.token.endsOperand

/-- The lexeme, unless the item is a report. -/
def lexeme? : Lexed → Option Lexeme
  | report _ => none
  | lexeme x => some x

/-- The diagnostic, if the item is a report. -/
def report? : Lexed → Option Diagnostic
  | report d => some d
  | lexeme _ => none

end Lexed

/-- What is being read. The characters of a lexeme that were read so far are kept where its token
holds them, the latest first; of a text literal these are the characters that it denotes. -/
inductive Mode where
  | between
  | minus (start : Location)
  | name (start : Location) (read : List Char)
  | number (start : Location) (read : List Char) (dotted : Bool)
  | dots (start : Location)
  | text (start : Location) (read : List Char)
  | escape (start : Location) (read : List Char) (backslash : Location)
  | comment (start : Location) (read : List Char)
deriving DecidableEq

namespace Lexer

/-- Whether a name can begin with the character. -/
def beginsName (c : Char) : Bool := c.isAlpha || c = '_'

/-- Whether a name can go on with the character. -/
def continuesName (c : Char) : Bool := c.isAlphanum || c = '_'

/-- Whether a number can begin with the character. -/
def beginsNumber (c : Char) : Bool := c.isDigit || c = '.'

/-- Whether the character ends a line. -/
def endsLine (c : Char) : Bool := c = '\n' || c = '\r'

/-- The character that a backslash and `c` stand for. -/
def escaped? (c : Char) : Option Char :=
  if c = 't' then some '\t'
  else if c = 'b' then some '\x08'
  else if c = 'n' then some '\n'
  else if c = 'r' then some '\r'
  else if c = 'f' then some '\x0c'
  else if c = '\'' then some '\''
  else if c = '"' then some '"'
  else if c = '\\' then some '\\'
  else none

/-- The token that consists of the one character `c`. -/
def single? (c : Char) : Option Token :=
  if c = '(' then some .leftParen
  else if c = ')' then some .rightParen
  else if c = '{' then some .leftBrace
  else if c = '}' then some .rightBrace
  else if c = '+' then some (.operator .add)
  else if c = '*' then some (.operator .mul)
  else if c = '/' then some (.operator .div)
  else if c = '^' then some (.operator .pow)
  else if c = ',' then some .comma
  else if c = '=' then some .assign
  else none

end Lexer

namespace Mode

open Lexer

/-- A number literal between two locations. A dot alone, signed or not, is none. -/
def numberLexed (read : List Char) (dotted : Bool) (start stop : Location) : List Lexed :=
  if read = ['.'] ∨ read = ['-', '.'] then
    [.error .loneDot ⟨start, stop⟩, .token .invalid start stop]
  else if dotted then [.token (.float (String.ofList read)) start stop]
  else [.token (.int (String.ofList read)) start stop]

/-- What is written when the lexeme being read ends at `stop`. A text literal ends in this way
only with the text. -/
def close (mode : Mode) (stop : Location) : List Lexed :=
  match mode with
  | between => []
  | minus start => [.token (.operator .sub) start stop]
  | name start read => [.token (.identifier (String.ofList read.reverse)) start stop]
  | number start read dotted => numberLexed read.reverse dotted start stop
  | dots start => [.token .invalid start stop]
  | text start read | escape start read _ =>
      [.error .endOfText (.point start), .token (.text (String.ofList read.reverse)) start stop]
  | comment start read => [.token (.comment (String.ofList read.reverse)) start stop]

/-- Reads a character that belongs to the lexeme being read, which then may be complete; `none` if
it does not belong to it. The character stands at `here`, and `next` is the location after it. -/
def extend? (mode : Mode) (afterOperand : Bool) (here next : Location) (c : Char) :
    Option (List Lexed × Mode) :=
  match mode with
  | between => none
  | minus start =>
      if c = '>' then some ([.token .arrow start next], between)
      else if beginsNumber c && !afterOperand then some ([], number start [c, '-'] (c = '.'))
      else none
  | name start read => if continuesName c then some ([], name start (c :: read)) else none
  | number start read dotted =>
      if c.isDigit then some ([], number start (c :: read) dotted)
      else if c = '.' then
        if dotted then some ([.error .secondDot ⟨here, next⟩], dots start)
        else some ([], number start (c :: read) true)
      else none
  | dots start => if beginsNumber c then some ([], dots start) else none
  | text start read =>
      if c = '"' then some ([.token (.text (String.ofList read.reverse)) start next], between)
      else if endsLine c then
        some ([.error .endOfLine (.point start),
          .token (.text (String.ofList read.reverse)) start next], between)
      else if c = '\\' then some ([], escape start read here)
      else some ([], text start (c :: read))
  | escape start read backslash =>
      match escaped? c with
      | some meaning => some ([], text start (meaning :: read))
      | none => some ([.error (.unknownEscape c) ⟨backslash, next⟩], text start read)
  | comment start read => if endsLine c then none else some ([], comment start (c :: read))

/-- Reads a character that no unfinished lexeme takes. -/
def begin (here next : Location) (c : Char) : List Lexed × Mode :=
  if Text.isBlank c then ([], between)
  else if beginsName c then ([], name here [c])
  else if beginsNumber c then ([], number here [c] (c = '.'))
  else if c = '"' then ([], text here [])
  else if c = '#' then ([], comment here [c])
  else if c = '-' then ([], minus here)
  else match single? c with
    | some token => ([.token token here next], between)
    | none =>
        ([.error (.invalidCharacter c) ⟨here, next⟩, .token .invalid here next], between)

end Mode

/-- A lexer in the middle of a text: the place reached, whether the last token that is no comment
ends an operand, and what is being read. -/
structure Lexer where
  place : Place
  afterOperand : Bool
  mode : Mode
deriving DecidableEq

namespace Lexer

/-- The lexer before the first character of a text. -/
def first : Lexer := ⟨Place.first, false, .between⟩

/-- Reads one character. -/
def step (lexer : Lexer) (c : Char) : List Lexed × Lexer :=
  let here := lexer.place.location
  let place := lexer.place.advance c
  match lexer.mode.extend? lexer.afterOperand here place.location c with
  | some (written, mode) =>
      (written, ⟨place, written.foldl Lexed.afterOperand lexer.afterOperand, mode⟩)
  | none =>
      let closed := lexer.mode.close here
      let (begun, mode) := Mode.begin here place.location c
      (closed ++ begun,
        ⟨place, (closed ++ begun).foldl Lexed.afterOperand lexer.afterOperand, mode⟩)

/-- What is written when the text ends: the unfinished lexeme and the end of the text. -/
def finish (lexer : Lexer) : List Lexed :=
  let here := lexer.place.location
  lexer.mode.close here ++ [.token .finish here here]

end Lexer

/-- The lexemes of a text, comments and its end included, with the reports about them. -/
def lex (source : String) : List Lexed :=
  let (written, lexer) := transduce Lexer.step Lexer.first source.toList
  written ++ lexer.finish

end Progression
