import Progression.Operator
import Progression.Place
import Progression.Ty

/-! What can be wrong with a program, and how it is said. Every stage has its own causes; a
diagnostic is a cause with the span it is about and, for a missing token, the insertion that
mends it. -/

namespace Progression

/-- What can be wrong with the characters of a program. -/
inductive LexError where
  | secondDot
  | loneDot
  | unknownEscape (c : Char)
  | endOfLine
  | endOfText
  | invalidCharacter (c : Char)
deriving DecidableEq

/-- How the cause is worded. -/
def LexError.message : LexError → String
  | secondDot => "A number literal can only contain one '.'"
  | loneDot => "A single dot is no number literal"
  | unknownEscape c => "Unknown escape sequence '\\" ++ c.toString ++ "'"
  | endOfLine => "Found end of line before string literal was terminated"
  | endOfText => "Reached end of file before string literal was terminated"
  | invalidCharacter c => "'" ++ c.toString ++ "' is an invalid character at this position"

/-- What the grammar asks for at one point of a statement. -/
inductive Wanted where
  | statement
  | text
  | target
  | assign
  | expression
  | boundComma
  | mapComma
  | baseComma
  | lambdaComma
  | arrow
  | parameter
  | leftParen
  | rightParen
  | rightBrace
deriving DecidableEq

namespace Wanted

/-- The demand up to the point where the token that was found is named. -/
def demand : Wanted → String
  | statement =>
      "Unexpected start of statements. Statements must start with 'var', 'out' or 'print' but found"
  | text => "Expected a string literal after 'print' but got"
  | target => "Expected an identifier after 'var' but found"
  | assign => "Expected a '=' in an assignment statement but found"
  | expression => "Expected an expression but found"
  | boundComma => "Expected ',' to separate the lower and upper bound of a range but found"
  | mapComma => "Expected ',' to separate argument and lambda in 'map' but found"
  | baseComma => "Expected ',' to separate argument and base in 'reduce' but found"
  | lambdaComma => "Expected ',' to separate base and lambda in 'reduce' but found"
  | arrow => "Expected '->' to separate parameter and body in lambda but found"
  | parameter => "Expected lambda parameter but found"
  | leftParen => "Expected '(' but found"
  | rightParen => "Expected ')' but found"
  | rightBrace => "Expected '\x7d' but found"

/-- The text whose insertion supplies what is wanted, where one text does. -/
def insertion? : Wanted → Option String
  | boundComma | mapComma | baseComma | lambdaComma => some ", "
  | arrow => some "->"
  | leftParen => some "("
  | rightParen => some ")"
  | rightBrace => some "\x7d"
  | _ => none

end Wanted

/-- What can be wrong with the tokens of a program. -/
inductive ParseError where
  | expected (wanted : Wanted) (found : String)
  | literalTooLarge (literal : String)
deriving DecidableEq

/-- How the cause is worded. -/
def ParseError.message : ParseError → String
  | expected wanted found => wanted.demand ++ " '" ++ found ++ "'"
  | literalTooLarge literal => "Integer literal '" ++ literal ++ "' is too large"

/-- The lower or the upper bound of a range. -/
inductive Bound where
  | lower
  | upper
deriving DecidableEq

/-- How a demand on the bound begins. -/
def Bound.subject : Bound → String
  | lower => "Lower bound of a range"
  | upper => "Upper bound of a range"

/-- What can be wrong with the names and types of a statement. -/
inductive TypeError where
  | alreadyDeclared (name : String)
  | undeclared (name : String)
  | operands (op : Operator) (left right : Ty)
  | mapArgument (found : Ty)
  | reduceArgument (found : Ty)
  | reduceBody (base found : Ty)
  | bound (which : Bound) (found : Ty)
deriving DecidableEq

/-- How the cause is worded. -/
def TypeError.message : TypeError → String
  | alreadyDeclared name => "Variable '" ++ name ++ "' has already been declared"
  | undeclared name => "Variable '" ++ name ++ "' referenced before declaration"
  | operands op left right =>
      "Arithmetic operator '" ++ op.symbol ++ "' can only be used on number types and not on '" ++
        left.text ++ "' and '" ++ right.text ++ "'"
  | mapArgument found => "Argument for 'map' must be a sequence, '" ++ found.text ++ "' given"
  | reduceArgument found =>
      "First argument for 'reduce' must be a sequence, '" ++ found.text ++ "' given"
  | reduceBody base found =>
      "The lambda of 'reduce' must return the same type as the base element ('" ++ base.text ++
        "'). Got '" ++ found.text ++ "'"
  | bound which found => which.subject ++ " must be an integer and not '" ++ found.text ++ "'"

/-- What can go wrong while a statement runs. -/
inductive RuntimeError where
  | divisionByZero
  | overflow (op : Operator)
  | invertedRange
  | boundNotInt (which : Bound) (found : Kind)
  | rangeTooLarge (elements : Nat)
deriving DecidableEq

/-- How the cause is worded. -/
def RuntimeError.message : RuntimeError → String
  | divisionByZero => "Division by 0"
  | overflow op => "Integer overflow while evaluating '" ++ op.symbol ++ "'"
  | invertedRange => "Upper bound of range cannot be smaller than the lower bound"
  | boundNotInt which found =>
      which.subject ++ " must be an integer and not '" ++ found.name ++ "'"
  | rangeTooLarge elements => "Range of " ++ Nat.repr elements ++ " elements is too large"

/-- A stage of the way from a text to its output. -/
inductive Stage where
  | lex
  | parse
  | type
  | runtime
deriving DecidableEq

/-- How the stage is written. -/
def Stage.name : Stage → String
  | lex => "Lex"
  | parse => "Parse"
  | type => "Type"
  | runtime => "Runtime"

/-- What is wrong, whatever stage found it. -/
inductive Cause where
  | lex (cause : LexError)
  | parse (cause : ParseError)
  | type (cause : TypeError)
  | runtime (cause : RuntimeError)
deriving DecidableEq

namespace Cause

/-- The stage that finds the cause. -/
def stage : Cause → Stage
  | lex _ => .lex
  | parse _ => .parse
  | type _ => .type
  | runtime _ => .runtime

/-- How the cause is worded. -/
def message : Cause → String
  | lex cause => cause.message
  | parse cause => cause.message
  | type cause => cause.message
  | runtime cause => cause.message

end Cause

/-- Text to insert at a location. -/
structure FixIt where
  location : Location
  insertion : String
deriving DecidableEq

/-- A cause, the span it is about, and possibly an insertion that mends it. -/
structure Diagnostic where
  cause : Cause
  span : Span
  fixIt : Option FixIt := none
deriving DecidableEq

namespace Diagnostic

/-- How the cause is worded. -/
def message (d : Diagnostic) : String := d.cause.message

/-- The stage that reported the diagnostic. -/
def stage (d : Diagnostic) : Stage := d.cause.stage

/-- The written form: the span and the wording. -/
def text (d : Diagnostic) : String := d.span.text ++ ": " ++ d.message

/-- The same diagnostic with `fixIt` in place of any earlier one. -/
def withFixIt (d : Diagnostic) (fixIt : FixIt) : Diagnostic := { d with fixIt := some fixIt }

end Diagnostic

/-- Diagnostics in the order in which they were reported. -/
abbrev Log := List Diagnostic

namespace Log

/-- Adds a diagnostic at the end. -/
def report (log : Log) (d : Diagnostic) : Log := log ++ [d]

/-- Moves all of `other` to the end of `log`; `other` is left empty. -/
def absorb (log other : Log) : Log × Log := (log ++ other, [])

end Log

end Progression
