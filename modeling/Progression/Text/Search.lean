/-! Searching in texts and cutting them into lines. -/

namespace Progression.Text

/-- What follows `marker` in a text that begins with it. -/
def rest? : List Char → List Char → Option (List Char)
  | [], cs => some cs
  | _ :: _, [] => none
  | m :: marker, c :: cs => if m = c then rest? marker cs else none

/-- What follows the first occurrence of `marker`. -/
def afterFirst? (marker : List Char) : List Char → Option (List Char)
  | [] => rest? marker []
  | c :: cs =>
      match rest? marker (c :: cs) with
      | some rest => some rest
      | none => afterFirst? marker cs

/-- Whether `pattern` occurs in a text. The empty pattern occurs in every text. -/
def occurs (pattern text : List Char) : Bool := (afterFirst? pattern text).isSome

/-- The lines of a text, with `line` read of the first one, the latest character first. A carriage
return before a line feed belongs to the line end. -/
def linesFrom (line : List Char) : List Char → List (List Char)
  | [] => if line.isEmpty then [] else [line.reverse]
  | c :: cs =>
      if c = '\n' then
        (if line.head? = some '\r' then line.tail else line).reverse :: linesFrom [] cs
      else linesFrom (c :: line) cs

/-- The lines of a text. Every line feed ends a line, together with a carriage return before it;
what is left after the last line feed is a line unless it is empty. -/
def lines (text : String) : List (List Char) := linesFrom [] text.toList

end Progression.Text
