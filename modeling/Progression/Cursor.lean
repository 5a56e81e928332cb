import Progression.Place

/-! A text with the place reached in it. Every operation either leaves the cursor alone or reads
characters from the front of what is left. -/

namespace Progression

/-- What is left of a text, and the place where it begins. -/
structure Cursor where
  place : Place
  rest : List Char
deriving DecidableEq

namespace Cursor

/-- The cursor before the first character of `source`. -/
def ofText (source : String) : Cursor := ⟨Place.first, source.toList⟩

/-- What is said when a character is asked for and none is left. -/
def endMessage : String := "reached end of input"

/-- Where the next character stands. -/
def location (cursor : Cursor) : Location := cursor.place.location

/-- The next character, without reading it. -/
def peek? (cursor : Cursor) : Option Char := cursor.rest.head?

/-- Reads the next character. -/
def next? (cursor : Cursor) : Option (Char × Cursor) :=
  match cursor.rest with
  | [] => none
  | c :: rest => some (c, ⟨cursor.place.advance c, rest⟩)

/-- Reads the next character if it satisfies `p`. -/
def nextIf? (cursor : Cursor) (p : Char → Bool) : Option (Char × Cursor) :=
  match cursor.rest with
  | [] => none
  | c :: rest => if p c then some (c, ⟨cursor.place.advance c, rest⟩) else none

/-- Reads characters as long as they satisfy `p`. -/
def skipWhile (cursor : Cursor) (p : Char → Bool) : Cursor :=
  ⟨cursor.place.after (cursor.rest.takeWhile p), cursor.rest.dropWhile p⟩

end Cursor

end Progression
