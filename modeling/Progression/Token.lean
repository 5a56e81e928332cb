import Progression.Operator
import Progression.Place

/-! The tokens of the language. Literals keep the text they were written with; their values are
read off when they are used as operands. -/

namespace Progression

/-- A token. `invalid` stands for characters that form no token, `finish` for the end of
the text. -/
inductive Token where
  | identifier (name : String)
  | operator (op : Operator)
  | leftParen
  | rightParen
  | leftBrace
  | rightBrace
  | int (digits : String)
  | float (digits : String)
  | arrow
  | comma
  | text (content : String)
  | assign
  | invalid
  | comment (content : String)
  | finish
deriving DecidableEq

namespace Token

/-- The name of the token's kind, followed by what was written where kinds leave that open. -/
def label : Token → String
  | identifier name => "IDENTIFIER(" ++ name ++ ")"
  | operator .add => "ADD"
  | operator .sub => "SUB"
  | operator .mul => "MULT"
  | operator .div => "DIV"
  | operator .pow => "POW"
  | leftParen => "L_PAREN"
  | rightParen => "R_PAREN"
  | leftBrace => "L_BRACE"
  | rightBrace => "R_BRACE"
  | int digits => "INT_LITERAL(" ++ digits ++ ")"
  | float digits => "FLOAT_LITERAL(" ++ digits ++ ")"
  | arrow => "ARROW"
  | comma => "COMMA"
  | text content => "STRING_LITERAL(" ++ content ++ ")"
  | assign => "ASSIGN"
  | invalid => "ERROR"
  | comment content => "COMMENT(" ++ content ++ ")"
  | finish => "EOF"

/-- The token as it is written in a program. A text literal is put in quotes as it is, without
turning characters back into escapes. -/
def spelling : Token → String
  | identifier name => name
  | operator op => op.symbol
  | leftParen => "("
  | rightParen => ")"
  | leftBrace => "\x7b"
  | rightBrace => "\x7d"
  | int digits => digits
  | float digits => digits
  | arrow => "->"
  | comma => ","
  | text content => "\"" ++ content ++ "\""
  | assign => "="
  | invalid => "<error>"
  | comment content => content
  | finish => "EOF"

/-- Whether an operand can end with the token. Directly after such a token a minus sign is an
operator and never the sign of a literal. -/
def endsOperand : Token → Bool
  | identifier _ | int _ | float _ | text _ | rightParen | rightBrace | invalid => true
  | _ => false

/-- Whether the token is a comment, which the grammar ignores. -/
def isComment : Token → Bool
  | comment _ => true
  | _ => false

/-- Whether the token is the end of the text. -/
def isFinish : Token → Bool
  | finish => true
  | _ => false

/-- The binary operator that the token spells. -/
def operator? : Token → Option Operator
  | operator op => some op
  | _ => none

/-- Whether the token can begin a statement. -/
def startsStatement : Token → Bool
  | identifier name => name = "var" || name = "out" || name = "print"
  | _ => false

end Token

/-- A token and where it stands. -/
structure Lexeme where
  token : Token
  span : Span
deriving DecidableEq

end Progression
