/-! Places in a text: locations, spans between them, and how reading a character moves a place.
A line ends with a line feed, a carriage return, or a carriage return and the line feed directly
after it, which count as one line end. -/

namespace Progression

/-- A line and a column, both counted from one. A column counts characters. Neither has a bound here;
for a text of fewer than `UInt32.size - 1` characters both are what counters of 32 bits give, which do
not overflow then (`Proofs.Cursors`). -/
structure Location where
  line : Nat
  column : Nat
deriving DecidableEq

namespace Location

/-- Where a text begins. -/
def first : Location := ⟨1, 1⟩

/-- Locations are ordered by line, then by column. -/
instance : LT Location where
  lt a b := a.line < b.line ∨ a.line = b.line ∧ a.column < b.column

instance : LE Location where
  le a b := a.line < b.line ∨ a.line = b.line ∧ a.column ≤ b.column

instance (a b : Location) : Decidable (a < b) :=
  inferInstanceAs (Decidable (a.line < b.line ∨ a.line = b.line ∧ a.column < b.column))

instance (a b : Location) : Decidable (a ≤ b) :=
  inferInstanceAs (Decidable (a.line < b.line ∨ a.line = b.line ∧ a.column ≤ b.column))

theorem lt_iff {a b : Location} :
    a < b ↔ a.line < b.line ∨ a.line = b.line ∧ a.column < b.column := Iff.rfl

theorem le_iff {a b : Location} :
    a ≤ b ↔ a.line < b.line ∨ a.line = b.line ∧ a.column ≤ b.column := Iff.rfl

instance : Min Location := minOfLe

instance : Max Location := maxOfLe

instance : Ord Location where
  compare a b := if a < b then .lt else if a = b then .eq else .gt

/-- The written form `line:column`. -/
def text (location : Location) : String :=
  Nat.repr location.line ++ ":" ++ Nat.repr location.column

end Location

/-- The text from `start` up to, and not including, `stop`. -/
structure Span where
  start : Location
  stop : Location
deriving DecidableEq

namespace Span

/-- The empty span at a location. -/
def point (location : Location) : Span := ⟨location, location⟩

/-- The least span that covers both. -/
def cover (a b : Span) : Span := ⟨min a.start b.start, max a.stop b.stop⟩

@[simp] theorem cover_start (a b : Span) : (cover a b).start = min a.start b.start := rfl

@[simp] theorem cover_stop (a b : Span) : (cover a b).stop = max a.stop b.stop := rfl

/-- The written form `line:column - line:column`. -/
def text (span : Span) : String := span.start.text ++ " - " ++ span.stop.text

end Span

/-- A location together with whether the character just read was a carriage return. -/
structure Place where
  location : Location
  afterReturn : Bool
deriving DecidableEq

namespace Place

/-- Where the reading of a text begins. -/
def first : Place := ⟨Location.first, false⟩

/-- The place after reading `c`. The line feed of a carriage return and line feed pair moves
nothing: the carriage return has already ended the line. -/
def advance (place : Place) (c : Char) : Place :=
  if c = '\n' then
    if place.afterReturn then ⟨place.location, false⟩ else ⟨⟨place.location.line + 1, 1⟩, false⟩
  else if c = '\r' then ⟨⟨place.location.line + 1, 1⟩, true⟩
  else ⟨⟨place.location.line, place.location.column + 1⟩, false⟩

/-- The place after reading all of `cs`. -/
def after (place : Place) (cs : List Char) : Place := cs.foldl advance place

@[simp] theorem after_nil (place : Place) : place.after [] = place := rfl

@[simp] theorem after_cons (place : Place) (c : Char) (cs : List Char) :
    place.after (c :: cs) = (place.advance c).after cs := rfl

@[simp] theorem after_append (place : Place) (cs ds : List Char) :
    place.after (cs ++ ds) = (place.after cs).after ds := List.foldl_append

end Place

end Progression
