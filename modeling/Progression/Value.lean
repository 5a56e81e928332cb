import Progression.Decimal.Shortest
import Progression.Ty

/-! Values. The error value is what a failed expression gives; the failure itself has been reported
where it arose. -/

namespace Progression

/-- A value at run time. -/
inductive Value where
  | int (value : Int64)
  | float (value : Float)
  | text (content : String)
  | sequence (elements : List Value)
  | error

namespace Value

instance : Inhabited Value := ⟨error⟩

/-- The kind of the value. -/
def kind : Value → Kind
  | int _ => .int
  | float _ => .float
  | text _ => .text
  | sequence _ => .sequence
  | error => .error

/-- Whether the value is the error value. -/
def isError : Value → Bool
  | error => true
  | _ => false

mutual

/-- Writes the value at the end of a text. -/
def onto : Value → String → String
  | int value, before => before ++ value.toInt.repr
  | float value, before => before ++ Decimal.floatText value
  | text content, before => before ++ content
  | sequence elements, before => elementsOnto elements "" (before ++ "\x7b") ++ "\x7d"
  | error, before => before ++ "<error>"

/-- Writes values at the end of a text: `separator` before the first and a comma before each of the
others. -/
def elementsOnto : List Value → String → String → String
  | [], _, before => before
  | value :: values, separator, before =>
      elementsOnto values ", " (value.onto (before ++ separator))

end

/-- How the value is written. A text stands for itself, without quotes. -/
def render (value : Value) : String := value.onto ""

mutual

/-- Whether two values are the same. Floats that are no number are all the same, and so are the two
zeros; an int is never the same as a float. -/
def same : Value → Value → Bool
  | int a, int b => a = b
  | float a, float b => a == b || (a.isNaN && b.isNaN)
  | text a, text b => a = b
  | sequence as, sequence bs => sameElements as bs
  | error, error => true
  | _, _ => false

/-- Whether two lists hold the same values in the same order. -/
def sameElements : List Value → List Value → Bool
  | [], [] => true
  | a :: as, b :: bs => a.same b && sameElements as bs
  | _, _ => false

end

end Value

end Progression
