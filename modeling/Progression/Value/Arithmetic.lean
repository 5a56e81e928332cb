import Progression.Decimal.Nearest
import Progression.Diagnostic
import Progression.Integer
import Progression.Value

/-! Arithmetic on values. Two ints give an int, exactly or not at all, except that a division with a
remainder and a negative exponent give a float. If one operand is a float, both are taken as
floats. -/

namespace Progression.Operator

/-- The int, or an overflow of the operator. -/
def exactly (op : Operator) : Option Int64 → Except RuntimeError Value
  | some i => .ok (.int i)
  | none => .error (.overflow op)

/-- The quotient of two ints. Whether it is exact is seen from the remainder, and there is none if the
quotient is too large. -/
def divideInts (a b : Int64) : Except RuntimeError Value :=
  if b = 0 then .error .divisionByZero
  else match Integer.rem? a b with
    | some rest =>
        if rest = 0 then div.exactly (Integer.div? a b)
        else .ok (.float (Decimal.ofInteger a.toInt / Decimal.ofInteger b.toInt))
    | none => .error (.overflow div)

/-- The power of two ints. An exponent that 32 bits cannot hold is not multiplied out: then only a base
of absolute value at most one has a power that fits. -/
def raiseInts (a b : Int64) : Except RuntimeError Value :=
  if b.toInt < 0 then
    .ok (.float (Float.pow (Decimal.ofInteger a.toInt) (Decimal.ofInteger b.toInt)))
  else if b.toInt.toNat < UInt32.size then pow.exactly (Integer.pow? a b.toInt.toNat)
  else if a = 0 ∨ a = 1 then .ok (.int a)
  else if a = -1 then .ok (.int (if b.toInt % 2 = 0 then 1 else -1))
  else .error (.overflow pow)

/-- The operator on two ints. -/
def onInts (op : Operator) (a b : Int64) : Except RuntimeError Value :=
  match op with
  | add => add.exactly (Integer.add? a b)
  | sub => sub.exactly (Integer.sub? a b)
  | mul => mul.exactly (Integer.mul? a b)
  | div => divideInts a b
  | pow => raiseInts a b

/-- The operator on two floats. Only a division by zero fails. -/
def onFloats (op : Operator) (a b : Float) : Except RuntimeError Value :=
  match op with
  | add => .ok (.float (a + b))
  | sub => .ok (.float (a - b))
  | mul => .ok (.float (a * b))
  | div => if b == 0 then .error .divisionByZero else .ok (.float (a / b))
  | pow => .ok (.float (Float.pow a b))

/-- The operator on two values. Operands that are no numbers give the error value; if one of them is
the error value, its failure has been reported before. -/
def apply (op : Operator) : Value → Value → Except RuntimeError Value
  | .int a, .int b => op.onInts a b
  | .int a, .float b => op.onFloats (Decimal.ofInteger a.toInt) b
  | .float a, .int b => op.onFloats a (Decimal.ofInteger b.toInt)
  | .float a, .float b => op.onFloats a b
  | _, _ => .ok .error

end Progression.Operator
