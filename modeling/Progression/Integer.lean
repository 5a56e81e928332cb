/-! The integers of the language: 64 bit words that are never wrapped. An operation computes the
exact result and asks whether a word can hold it. -/

namespace Progression.Integer

/-- The word of value `i`, if there is one. -/
def fit? (i : Int) : Option Int64 :=
  if Int64.minValue.toInt ≤ i ∧ i ≤ Int64.maxValue.toInt then some (Int64.ofInt i) else none

/-- A word is found exactly if its value is the one asked for. -/
theorem fit?_eq_some_iff {i : Int} {w : Int64} : fit? i = some w ↔ w.toInt = i := by
  constructor
  · intro h
    unfold fit? at h
    split at h
    · next hRange =>
        cases h
        rw [Int64.toInt_minValue, Int64.toInt_maxValue] at hRange
        exact Int64.toInt_ofInt_of_le hRange.1 (by omega)
    · cases h
  · intro h
    subst h
    have hRange : Int64.minValue.toInt ≤ w.toInt ∧ w.toInt ≤ Int64.maxValue.toInt :=
      ⟨w.minValue_le_toInt, w.toInt_le⟩
    rw [fit?, if_pos hRange, Int64.ofInt_toInt]

/-- No word is found exactly if the value is out of range. -/
theorem fit?_eq_none_iff {i : Int} :
    fit? i = none ↔ i < Int64.minValue.toInt ∨ Int64.maxValue.toInt < i := by
  unfold fit?
  split <;> simp only [reduceCtorEq, false_iff, true_iff] <;> omega

/-- The exact sum. -/
def add? (a b : Int64) : Option Int64 := fit? (a.toInt + b.toInt)

/-- The exact difference. -/
def sub? (a b : Int64) : Option Int64 := fit? (a.toInt - b.toInt)

/-- The exact product. -/
def mul? (a b : Int64) : Option Int64 := fit? (a.toInt * b.toInt)

/-- The quotient, rounded toward zero. There is none by zero, and a word cannot hold the least integer
divided by minus one. -/
def div? (a b : Int64) : Option Int64 := if b = 0 then none else fit? (a.toInt.tdiv b.toInt)

/-- The remainder that the quotient leaves, if there is a quotient. -/
def rem? (a b : Int64) : Option Int64 := do
  let _ ← div? a b
  fit? (a.toInt.tmod b.toInt)

/-- The exact power, by repeated squaring. A square is formed only if a further factor of it is
needed, so nothing fails on the way to a power that fits. -/
def pow? (base : Int64) (exponent : Nat) : Option Int64 :=
  if exponent = 0 then some 1
  else if exponent = 1 then some base
  else do
    let square ← mul? base base
    let even ← pow? square (exponent / 2)
    if exponent % 2 = 0 then some even else mul? even base
termination_by exponent

/-- The number of integers from `lower` to `upper`, both included. -/
def rangeSize (lower upper : Int64) : Nat := (upper.toInt - lower.toInt + 1).toNat

/-- Whether a number of elements can be counted in 64 bits. -/
def isLength (n : Nat) : Bool := n < UInt64.size

/-- The integer `index` places after `lower`. -/
def element? (lower : Int64) (index : Nat) : Option Int64 := fit? (lower.toInt + index)

end Progression.Integer
