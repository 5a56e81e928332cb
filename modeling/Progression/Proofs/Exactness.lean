import Mathlib.Algebra.Order.Ring.Basic
import Mathlib.Algebra.Order.Ring.Int
import Progression.Value.Arithmetic

/-! Integer arithmetic is exact. What an operator makes of two ints is said first without any bound:
an integer, a float, or nothing. A word then holds the integer or an overflow is reported, and nothing
that is computed on the way to a result can overflow unless the result does. -/

namespace Progression

/-- What an operator comes to if words had no bound. -/
inductive Ideal where
  | integer (i : Int)
  | promoted (x : Float)
  | undefined

/-- What an operator on two integers comes to. A quotient has to be exact to be an integer. -/
inductive Operator.Amounts (a b : Int) : Operator → Ideal → Prop where
  | sum : Amounts a b .add (.integer (a + b))
  | difference : Amounts a b .sub (.integer (a - b))
  | product : Amounts a b .mul (.integer (a * b))
  | byZero (hb : b = 0) : Amounts a b .div .undefined
  | quotient {q : Int} (hb : b ≠ 0) (hq : q * b = a) : Amounts a b .div (.integer q)
  | remainder (hb : b ≠ 0) (hq : ∀ q, q * b ≠ a) :
      Amounts a b .div (.promoted (Decimal.ofInteger a / Decimal.ofInteger b))
  | power {n : Nat} (hb : b = n) : Amounts a b .pow (.integer (a ^ n))
  | reciprocal (hb : b < 0) :
      Amounts a b .pow (.promoted (Float.pow (Decimal.ofInteger a) (Decimal.ofInteger b)))

namespace Integer

/-- A power with a base of absolute value at most one always fits. -/
theorem two_le_natAbs {b : Int} {n : Nat} (h : fit? (b ^ n) = none) : 2 ≤ b.natAbs := by
  by_contra hSmall
  have hPower : (b ^ n).natAbs ≤ 1 := by
    rw [Int.natAbs_pow]
    exact pow_le_one₀ (Nat.zero_le _) (by omega)
  rw [fit?_eq_none_iff, Int64.toInt_minValue, Int64.toInt_maxValue] at h
  omega

/-- A power that does not fit with an even exponent does not fit with any greater one. -/
theorem fit?_pow_add {b : Int} {m : Nat} (hEven : Even m) (h : fit? (b ^ m) = none) (r : Nat) :
    fit? (b ^ (m + r)) = none := by
  cases r with
  | zero => exact h
  | succ r =>
      have hBase : 2 ≤ b.natAbs := two_le_natAbs h
      have hFactor : 2 ≤ b.natAbs ^ (r + 1) :=
        hBase.trans (Nat.le_pow (Nat.succ_pos r))
      have hNonneg : 0 ≤ b ^ m := hEven.pow_nonneg b
      have hAbs : (b ^ (m + (r + 1))).natAbs = (b ^ m).natAbs * b.natAbs ^ (r + 1) := by
        rw [pow_add, Int.natAbs_mul, Int.natAbs_pow b (r + 1)]
      have hDouble : 2 * (b ^ m).natAbs ≤ (b ^ (m + (r + 1))).natAbs := by
        rw [hAbs, Nat.mul_comm]
        exact Nat.mul_le_mul_left _ hFactor
      rw [fit?_eq_none_iff, Int64.toInt_minValue, Int64.toInt_maxValue] at h ⊢
      omega

/-- Repeated squaring finds the power exactly if it fits: whatever fails to fit on the way has an even
exponent. -/
theorem pow?_eq (base : Int64) (exponent : Nat) :
    pow? base exponent = fit? (base.toInt ^ exponent) := by
  induction exponent using Nat.strongRecOn generalizing base with
  | ind exponent ih =>
      rw [pow?]
      split
      · next hZero =>
          subst hZero
          exact (fit?_eq_some_iff.mpr (pow_zero _).symm).symm
      split
      · next hOne =>
          subst hOne
          exact (fit?_eq_some_iff.mpr (pow_one _).symm).symm
      · next hZero hOne =>
          have hSplit : base.toInt ^ exponent =
              base.toInt ^ (2 * (exponent / 2) + exponent % 2) := by
            rw [Nat.div_add_mod]
          cases hSquare : mul? base base with
          | none =>
              rw [mul?, ← pow_two] at hSquare
              have hMore := fit?_pow_add even_two hSquare (exponent - 2)
              rw [Nat.add_sub_cancel' (by omega)] at hMore
              exact hMore.symm
          | some square =>
              have hValue : square.toInt = base.toInt ^ 2 := by
                rw [pow_two]
                exact fit?_eq_some_iff.mp hSquare
              have hHalf := ih (exponent / 2) (by omega) square
              rw [hValue, ← pow_mul] at hHalf
              rw [Option.bind_eq_bind, Option.bind_some]
              cases hEven : pow? square (exponent / 2) with
              | none =>
                  rw [hEven] at hHalf
                  rw [hSplit]
                  exact (fit?_pow_add (even_two_mul _) hHalf.symm (exponent % 2)).symm
              | some even =>
                  rw [hEven] at hHalf
                  have hPower : even.toInt = base.toInt ^ (2 * (exponent / 2)) :=
                    fit?_eq_some_iff.mp hHalf.symm
                  rw [Option.bind_some, hSplit, pow_add, ← hPower]
                  split
                  · next hMod =>
                      rw [hMod, pow_zero, mul_one]
                      exact (fit?_eq_some_iff.mpr rfl).symm
                  · next hMod =>
                      rw [Nat.mod_two_ne_zero.mp hMod, pow_one]
                      rfl

theorem fit?_toInt (w : Int64) : fit? w.toInt = some w := fit?_eq_some_iff.mpr rfl

/-- A quotient by anything but one and minus one is small. -/
theorem natAbs_of_div?_eq_none {a b : Int64} (hb : b.toInt ≠ 0)
    (h : fit? (a.toInt.tdiv b.toInt) = none) : b.toInt.natAbs = 1 := by
  have hRange := a.minValue_le_toInt
  have hUpper := a.toInt_le
  have hAbs : (a.toInt.tdiv b.toInt).natAbs = a.toInt.natAbs / b.toInt.natAbs :=
    Int.natAbs_tdiv _ _
  rw [fit?_eq_none_iff] at h
  rw [Int64.toInt_minValue, Int64.toInt_maxValue] at *
  by_contra hOne
  have hHalf : a.toInt.natAbs / b.toInt.natAbs ≤ a.toInt.natAbs / 2 :=
    Nat.div_le_div_left (by omega) (by omega)
  omega

/-- A remainder always fits. -/
theorem exists_fit?_tmod (a : Int) {b : Int64} (hb : b.toInt ≠ 0) :
    ∃ rest, fit? (a.tmod b.toInt) = some rest := by
  have hLower := b.minValue_le_toInt
  have hUpper := b.toInt_le
  have hSmall : (a.tmod b.toInt).natAbs < b.toInt.natAbs := by
    rw [Int.natAbs_tmod]
    exact Nat.mod_lt _ (by omega)
  cases hFit : fit? (a.tmod b.toInt) with
  | some rest => exact ⟨rest, rfl⟩
  | none =>
      rw [fit?_eq_none_iff] at hFit
      rw [Int64.toInt_minValue, Int64.toInt_maxValue] at *
      omega

/-- With a great exponent only the powers of bases of absolute value at most one fit. -/
theorem fit?_pow_of_large {b : Int} {n : Nat} (hBase : 2 ≤ b.natAbs) (hn : UInt32.size ≤ n) :
    fit? (b ^ n) = none := by
  have hPower : 2 ^ 64 ≤ (b ^ n).natAbs := by
    rw [Int.natAbs_pow]
    calc
      2 ^ 64 ≤ 2 ^ n := Nat.pow_le_pow_right (by decide) (le_trans (by decide) hn)
      _ ≤ b.natAbs ^ n := Nat.pow_le_pow_left hBase n
  rw [fit?_eq_none_iff, Int64.toInt_minValue, Int64.toInt_maxValue]
  omega

end Integer

/-- The value that stands for an ideal result, where a word can hold it. -/
def Ideal.settle (op : Operator) : Ideal → Except RuntimeError Value
  | integer i => op.exactly (Integer.fit? i)
  | promoted x => .ok (.float x)
  | undefined => .error .divisionByZero

namespace Operator

variable {op : Operator} {a b : Int}

theorem Amounts.unique {first second : Ideal} (hFirst : Amounts a b op first)
    (hSecond : Amounts a b op second) : first = second := by
  cases hFirst with
  | sum | difference | product => cases hSecond; rfl
  | byZero hb =>
      cases hSecond with
      | byZero => rfl
      | quotient hOther => exact absurd hb hOther
      | remainder hOther => exact absurd hb hOther
  | quotient hb hq =>
      cases hSecond with
      | byZero hOther => exact absurd hOther hb
      | quotient _ hOther => rw [mul_right_cancel₀ hb (hq.trans hOther.symm)]
      | remainder _ hOther => exact absurd hq (hOther _)
  | remainder hb hq =>
      cases hSecond with
      | byZero hOther => exact absurd hOther hb
      | quotient _ hOther => exact absurd hOther (hq _)
      | remainder => rfl
  | power hb =>
      cases hSecond with
      | power hOther => rw [Int.ofNat_inj.mp (hb.symm.trans hOther)]
      | reciprocal hOther => omega
  | reciprocal hb =>
      cases hSecond with
      | power hOther => omega
      | reciprocal => rfl

/-- Division by the remainder comes to an exact quotient or none. -/
theorem divideInts_eq (a b : Int64) :
    divideInts a b =
      if b.toInt = 0 then .error .divisionByZero
      else if b.toInt ∣ a.toInt then div.exactly (Integer.fit? (a.toInt / b.toInt))
      else .ok (.float (Decimal.ofInteger a.toInt / Decimal.ofInteger b.toInt)) := by
  have hZero : b = 0 ↔ b.toInt = 0 := Int64.toInt_inj.symm
  simp only [divideInts, hZero]
  split
  · rfl
  next hb =>
  have hDiv : Integer.div? a b = Integer.fit? (a.toInt.tdiv b.toInt) :=
    if_neg (hZero.not.mpr hb)
  rw [Integer.rem?, hDiv]
  cases hFit : Integer.fit? (a.toInt.tdiv b.toInt) with
  | none =>
      -- Only a division by one or minus one can be out of range, and it leaves no remainder.
      have hDvd : b.toInt ∣ a.toInt :=
        Int.natAbs_dvd.mp (by rw [Integer.natAbs_of_div?_eq_none hb hFit]; exact one_dvd _)
      rw [if_pos hDvd, ← Int.tdiv_eq_ediv_of_dvd hDvd, hFit]
      rfl
  | some quotient =>
      obtain ⟨rest, hRest⟩ := Integer.exists_fit?_tmod a.toInt hb
      have hExact : rest = 0 ↔ b.toInt ∣ a.toInt := by
        rw [← Int64.toInt_inj, Integer.fit?_eq_some_iff.mp hRest]
        exact Int.dvd_iff_tmod_eq_zero.symm
      simp only [Option.bind_eq_bind, Option.bind_some, hRest, hExact]
      split
      · next hDvd => rw [← Int.tdiv_eq_ediv_of_dvd hDvd, hFit]
      · rfl

/-- The cases of a great exponent are those of the power itself. -/
theorem raiseInts_eq (a b : Int64) :
    raiseInts a b =
      if b.toInt < 0 then
        .ok (.float (Float.pow (Decimal.ofInteger a.toInt) (Decimal.ofInteger b.toInt)))
      else pow.exactly (Integer.fit? (a.toInt ^ b.toInt.toNat)) := by
  unfold raiseInts
  split
  · rfl
  next hb =>
  split
  · rw [Integer.pow?_eq]
  next hLarge =>
  have hPositive : b.toInt.toNat ≠ 0 := by
    intro hZero
    rw [hZero] at hLarge
    exact hLarge (by decide)
  split
  · next hBase =>
      have hPower : a.toInt ^ b.toInt.toNat = a.toInt := by
        rcases hBase with rfl | rfl
        · exact zero_pow hPositive
        · exact one_pow _
      rw [hPower, Integer.fit?_toInt]
      rfl
  split
  · next hBase =>
      subst hBase
      have hSign : ((-1 : Int64).toInt) = -1 := rfl
      have hExponent : b.toInt % 2 = 0 ↔ Even b.toInt.toNat := by
        rw [Nat.even_iff]
        omega
      rw [hSign]
      split
      · next hEven =>
          rw [(hExponent.mp hEven).neg_one_pow]
          rfl
      · next hOdd =>
          rw [(Nat.not_even_iff_odd.mp (hExponent.not.mp hOdd)).neg_one_pow]
          rfl
  · next hUnit hMinus =>
      have hBase : 2 ≤ a.toInt.natAbs := by
        have hZero : a.toInt ≠ 0 := fun h => hUnit (.inl (Int64.toInt_inj.mp h))
        have hOne : a.toInt ≠ 1 := fun h => hUnit (.inr (Int64.toInt_inj.mp h))
        have hOther : a.toInt ≠ -1 := fun h => hMinus (Int64.toInt_inj.mp h)
        omega
      rw [Integer.fit?_pow_of_large hBase (not_lt.mp hLarge)]
      rfl

theorem amounts_divideInts (a b : Int64) :
    ∃ ideal, Amounts a.toInt b.toInt .div ideal ∧ divideInts a b = ideal.settle .div := by
  rw [divideInts_eq]
  split
  · next hb => exact ⟨_, .byZero hb, rfl⟩
  · next hb =>
      split
      · next hDvd => exact ⟨_, .quotient hb (Int.ediv_mul_cancel hDvd), rfl⟩
      · next hDvd => exact ⟨_, .remainder hb fun q hq => hDvd ⟨q, by rw [← hq, mul_comm]⟩, rfl⟩

theorem amounts_raiseInts (a b : Int64) :
    ∃ ideal, Amounts a.toInt b.toInt .pow ideal ∧ raiseInts a b = ideal.settle .pow := by
  rw [raiseInts_eq]
  split
  · next hb => exact ⟨_, .reciprocal hb, rfl⟩
  · next hb => exact ⟨_, .power (Int.toNat_of_nonneg (not_lt.mp hb)).symm, rfl⟩

/-- On two ints every operator gives what it comes to, as far as a word can hold it. -/
theorem amounts_onInts (op : Operator) (a b : Int64) :
    ∃ ideal, Amounts a.toInt b.toInt op ideal ∧ op.onInts a b = ideal.settle op := by
  cases op with
  | add => exact ⟨_, .sum, rfl⟩
  | sub => exact ⟨_, .difference, rfl⟩
  | mul => exact ⟨_, .product, rfl⟩
  | div => exact amounts_divideInts a b
  | pow => exact amounts_raiseInts a b

end Operator

namespace Ideal

variable {op : Operator} {ideal : Ideal}

theorem settle_eq_int {w : Int64} :
    ideal.settle op = .ok (.int w) ↔ ideal = .integer w.toInt := by
  cases ideal with
  | integer i =>
      rw [settle, integer.injEq, eq_comm (b := w.toInt), ← Integer.fit?_eq_some_iff]
      cases Integer.fit? i <;> simp [Operator.exactly]
  | promoted | undefined => simp [settle]

theorem settle_eq_float {x : Float} :
    ideal.settle op = .ok (.float x) ↔ ideal = .promoted x := by
  cases ideal with
  | integer i => cases h : Integer.fit? i <;> simp [settle, Operator.exactly, h]
  | promoted | undefined => simp [settle]

theorem settle_eq_divisionByZero :
    ideal.settle op = .error .divisionByZero ↔ ideal = .undefined := by
  cases ideal with
  | integer i => cases h : Integer.fit? i <;> simp [settle, Operator.exactly, h]
  | promoted | undefined => simp [settle]

theorem settle_eq_overflow {other : Operator} :
    ideal.settle op = .error (.overflow other) ↔
      other = op ∧ ∃ i, ideal = .integer i ∧
        (i < Int64.minValue.toInt ∨ Int64.maxValue.toInt < i) := by
  cases ideal with
  | integer i =>
      simp only [integer.injEq, exists_eq_left', ← Integer.fit?_eq_none_iff, settle]
      cases Integer.fit? i <;> simp [Operator.exactly, eq_comm]
  | promoted | undefined => simp [settle]

end Ideal

/-- Integer arithmetic is exact or says why it gives no int, for all words. The result is an int
exactly if what the operator comes to is an integer that a word can hold, and then it is this integer.
It is an overflow of the operator exactly if this integer is too small or too large, a float exactly
for a quotient with a remainder and for a negative exponent, and a division by zero exactly for a
divisor that is zero. Nothing else happens. -/
theorem integer_arithmetic_exact (op : Operator) (a b : Int64) :
    (∀ w : Int64, op.onInts a b = .ok (.int w) ↔
      op.Amounts a.toInt b.toInt (.integer w.toInt)) ∧
    (∀ other, op.onInts a b = .error (.overflow other) ↔ other = op ∧
      ∃ i, op.Amounts a.toInt b.toInt (.integer i) ∧
        (i < Int64.minValue.toInt ∨ Int64.maxValue.toInt < i)) ∧
    (∀ x, op.onInts a b = .ok (.float x) ↔ op.Amounts a.toInt b.toInt (.promoted x)) ∧
    (op.onInts a b = .error .divisionByZero ↔ op.Amounts a.toInt b.toInt .undefined) ∧
    ((∃ w, op.onInts a b = .ok (.int w)) ∨ (∃ x, op.onInts a b = .ok (.float x)) ∨
      op.onInts a b = .error .divisionByZero ∨ op.onInts a b = .error (.overflow op)) := by
  obtain ⟨ideal, hAmounts, hSettled⟩ := op.amounts_onInts a b
  have hOnly {other : Ideal} : op.Amounts a.toInt b.toInt other ↔ ideal = other :=
    ⟨hAmounts.unique, fun h => h ▸ hAmounts⟩
  simp only [hOnly, hSettled]
  refine ⟨fun w => Ideal.settle_eq_int, fun other => Ideal.settle_eq_overflow,
    fun x => Ideal.settle_eq_float, Ideal.settle_eq_divisionByZero, ?_⟩
  cases ideal with
  | promoted x => exact .inr (.inl ⟨x, rfl⟩)
  | undefined => exact .inr (.inr (.inl rfl))
  | integer i =>
      cases hFit : Integer.fit? i with
      | some w => exact .inl ⟨w, by rw [Ideal.settle, hFit]; rfl⟩
      | none => exact .inr (.inr (.inr (by rw [Ideal.settle, hFit]; rfl)))

end Progression
