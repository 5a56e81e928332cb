import Progression.Text.Extending
import Progression.Text.Unprintable

/-! Quoted texts. A text is written between double quotes on one line: a few characters have an
escape of their own, and those that could not be seen are written by their code point. -/

namespace Progression.Text

/-- The escape of a code point: its hexadecimal digits in braces. -/
def codePointEscape (c : Char) : List Char :=
  '\\' :: 'u' :: '{' :: (Nat.toDigits 16 c.toNat ++ ['}'])

/-- How a character is written inside quotes. -/
def quotedChar (c : Char) : List Char :=
  if c = '\t' then ['\\', 't']
  else if c = '\r' then ['\\', 'r']
  else if c = '\n' then ['\\', 'n']
  else if c = '"' then ['\\', '"']
  else if c = '\\' then ['\\', '\\']
  else if c = '\x00' then ['\\', '0']
  else if isExtending c || !isPrintable c then codePointEscape c
  else [c]

/-- The text in quotes. -/
def quoted (text : String) : String :=
  String.ofList ('"' :: text.toList.flatMap quotedChar ++ ['"'])

end Progression.Text
