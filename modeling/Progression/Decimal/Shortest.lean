/-! The fewest digits that read back. A double is a significand times a power of two, and every
real number close enough to it reads back as that double. Of the decimals that do, the ones with
the fewest places are found by trying grids of growing fineness, and the nearest of those is
taken; if two are equally near, the larger. -/

namespace Progression.Decimal

/-- A double by its parts: the value is the significand times two to the power `exponent`. The
double below is nearer than the one above if the significand is a power of two; `narrow` says so. -/
structure Parts where
  negative : Bool
  significand : Nat
  exponent : Int
  narrow : Bool
deriving DecidableEq

/-- What a double is. -/
inductive Reading where
  | finite (parts : Parts)
  | infinite (negative : Bool)
  | notANumber
deriving DecidableEq

/-- Takes the bits of a double apart. -/
def Reading.ofBits (bits : Nat) : Reading :=
  let negative := decide (Nat.pow 2 63 ≤ bits)
  let field : Nat := bits / Nat.pow 2 52 % Nat.pow 2 11
  let fraction : Nat := bits % Nat.pow 2 52
  if field = 0x7FF then
    if fraction = 0 then .infinite negative else .notANumber
  else if field = 0 then .finite ⟨negative, fraction, -1074, false⟩
  else
    .finite ⟨negative, fraction + Nat.pow 2 52, (field : Int) - 1075, fraction = 0 && 1 < field⟩

/-- Whether `steps / 10 ^ places` reads back as `significand / 2 ^ scale`. The ends of the interval
of numbers that do belong to it if the significand is even. -/
def readsBack (significand scale : Nat) (narrow : Bool) (places steps : Nat) : Bool :=
  let scaled := 4 * steps * Nat.pow 2 scale
  let low := (4 * significand - if narrow then 1 else 2) * Nat.pow 10 places
  let high := (4 * significand + 2) * Nat.pow 10 places
  if significand % 2 = 0 then low ≤ scaled && scaled ≤ high else low < scaled && scaled < high

/-- The number of steps of size `1 / 10 ^ places` that reads back and is nearest to
`significand / 2 ^ scale`, if any number of them reads back. -/
def stepsAt? (significand scale : Nat) (narrow : Bool) (places : Nat) : Option Nat :=
  let below := significand * Nat.pow 10 places / Nat.pow 2 scale
  let rest := significand * Nat.pow 10 places % Nat.pow 2 scale
  let lower := readsBack significand scale narrow places below
  let upper := readsBack significand scale narrow places (below + 1)
  if lower && upper then if 2 * rest < Nat.pow 2 scale then some below else some (below + 1)
  else if lower then some below
  else if upper then some (below + 1)
  else none

/-- Tries grids from `places` on. After `scale` places the value itself is on the grid. -/
def searchPlaces (significand scale : Nat) (narrow : Bool) : Nat → Nat → Nat × Nat
  | 0, places => (places, significand * Nat.pow 10 places / Nat.pow 2 scale)
  | tries + 1, places =>
      match stepsAt? significand scale narrow places with
      | some steps => (places, steps)
      | none => searchPlaces significand scale narrow tries (places + 1)

/-- The digits of `n`, with zeros in front up to `width` of them. -/
def padded (width n : Nat) : List Char :=
  let digits := Nat.toDigits 10 n
  List.replicate (width - digits.length) '0' ++ digits

/-- The text of `steps / 10 ^ places`. -/
def positional (places steps : Nat) : List Char :=
  Nat.toDigits 10 (steps / Nat.pow 10 places) ++ '.' :: padded places (steps % Nat.pow 10 places)

namespace Parts

/-- The integer that the absolute value is, if it is one. -/
def whole? (parts : Parts) : Option Nat :=
  if 0 ≤ parts.exponent then some (parts.significand * Nat.pow 2 parts.exponent.toNat)
  else
    let unit := Nat.pow 2 (-parts.exponent).toNat
    if parts.significand % unit = 0 then some (parts.significand / unit) else none

/-- The text of the absolute value: all digits and `.0` for an integer, else the fewest digits
that read back. There is never an exponent. -/
def magnitude (parts : Parts) : List Char :=
  match parts.whole? with
  | some n => Nat.toDigits 10 n ++ ['.', '0']
  | none =>
      let scale := (-parts.exponent).toNat
      let (places, steps) := searchPlaces parts.significand scale parts.narrow scale 1
      positional places steps

end Parts

/-- The text of a double. A zero keeps its sign; a value that is no number has none. -/
def Reading.text : Reading → List Char
  | finite parts => if parts.negative then '-' :: parts.magnitude else parts.magnitude
  | infinite negative => if negative then ['-', 'i', 'n', 'f'] else ['i', 'n', 'f']
  | notANumber => ['N', 'a', 'N']

/-- The text of a float. -/
def floatText (x : Float) : String :=
  String.ofList (Reading.ofBits x.toBits.toNat).text

end Progression.Decimal
