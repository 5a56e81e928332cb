import Mathlib.Tactic.Ring
import Mathlib.Tactic.Set
import Progression.Decimal.Nearest
import Progression.Decimal.Shortest

/-! The texts of floats tell them apart. The numbers that read back as a double form an interval, and
those of two doubles have at most an end in common, which belongs to one of them only. The text of a
double is that of a decimal in its interval, and it says which decimal that is. -/

namespace Progression

/-- Texts up to a mark that occurs in neither are equal, and so is what follows the mark. -/
theorem append_inj_at {α : Type} {mark : α} {xs ys rest rest' : List α} (hx : mark ∉ xs)
    (hy : mark ∉ ys) (h : xs ++ mark :: rest = ys ++ mark :: rest') : xs = ys ∧ rest = rest' := by
  induction xs generalizing ys with
  | nil =>
      cases ys with
      | nil => exact ⟨rfl, List.tail_eq_of_cons_eq h⟩
      | cons y ys => exact absurd (List.head_eq_of_cons_eq h) (List.ne_of_not_mem_cons hy)
  | cons x xs ih =>
      cases ys with
      | nil => exact absurd (List.head_eq_of_cons_eq h).symm (List.ne_of_not_mem_cons hx)
      | cons y ys =>
          obtain ⟨rfl, hRest⟩ := ih (List.not_mem_of_not_mem_cons hx) (List.not_mem_of_not_mem_cons hy)
            (List.tail_eq_of_cons_eq h)
          exact ⟨by rw [List.head_eq_of_cons_eq h], hRest⟩

namespace Decimal

/-! ### Decimals -/

theorem isDigit_of_mem_padded {width n : Nat} {c : Char} (h : c ∈ padded width n) :
    c.isDigit = true := by
  rcases List.mem_append.mp h with hZero | hDigit
  · rw [List.eq_of_mem_replicate hZero]
    rfl
  · exact Nat.isDigit_of_mem_toDigits (by decide) (by decide) hDigit

theorem length_padded {width n : Nat} (hWidth : 0 < width) (h : n < 10 ^ width) :
    (padded width n).length = width := by
  have hLength := (Nat.length_toDigits_le_iff (by decide) hWidth).mpr h
  rw [padded, List.length_append, List.length_replicate]
  omega

theorem ofDigitChars_padded (width n : Nat) : Nat.ofDigitChars 10 (padded width n) 0 = n := by
  rw [padded, Nat.ofDigitChars_append, Nat.ofDigitChars_replicate_zero, Nat.mul_zero,
    Nat.ofDigitChars_ten_toDigits]

/-- The text of a decimal says how many places it has and how many steps it is. -/
theorem positional_inj {places places' steps steps' : Nat} (hPlaces : 0 < places)
    (hPlaces' : 0 < places') (h : positional places steps = positional places' steps') :
    places = places' ∧ steps = steps' := by
  have hWhole (n : Nat) : '.' ∉ Nat.toDigits 10 n := by
    intro hDot
    exact absurd (Nat.isDigit_of_mem_toDigits (by decide) (by decide) hDot) (by decide)
  obtain ⟨hFront, hBack⟩ := append_inj_at (hWhole _) (hWhole _) h
  have hLess (k n : Nat) : n % 10 ^ k < 10 ^ k := Nat.mod_lt n (Nat.pow_pos (by decide))
  have hLength := congrArg List.length hBack
  rw [Nat.pow_eq, Nat.pow_eq, length_padded hPlaces (hLess _ _), length_padded hPlaces' (hLess _ _)]
    at hLength
  subst hLength
  have hQuotient := congrArg (Nat.ofDigitChars 10 · 0) hFront
  have hRemainder := congrArg (Nat.ofDigitChars 10 · 0) hBack
  simp only [Nat.ofDigitChars_ten_toDigits] at hQuotient
  simp only [ofDigitChars_padded] at hRemainder
  refine ⟨rfl, ?_⟩
  rw [← Nat.div_add_mod steps (Nat.pow 10 places), hQuotient, hRemainder, Nat.div_add_mod]

/-- A whole number is written as a decimal of one place. -/
theorem positional_one (n : Nat) : positional 1 (10 * n) = Nat.toDigits 10 n ++ ['.', '0'] := by
  have hPow : Nat.pow 10 1 = 10 := rfl
  rw [positional, hPow, Nat.mul_div_cancel_left n (by decide), Nat.mul_mod_right]
  rfl

theorem mem_positional {places steps : Nat} {c : Char} (h : c ∈ positional places steps) :
    c.isDigit = true ∨ c = '.' := by
  rcases List.mem_append.mp h with hWhole | hRest
  · exact .inl (Nat.isDigit_of_mem_toDigits (by decide) (by decide) hWhole)
  · rcases List.mem_cons.mp hRest with hDot | hFraction
    · exact .inr hDot
    · exact .inl (isDigit_of_mem_padded hFraction)

theorem head_positional (places steps : Nat) :
    ∃ c rest, positional places steps = c :: rest ∧ c.isDigit = true := by
  obtain ⟨c, rest, hDigits⟩ :=
    List.exists_cons_of_ne_nil (Nat.toDigits_ne_nil (n := steps / Nat.pow 10 places) (b := 10))
  refine ⟨c, _, by rw [positional, hDigits]; rfl, ?_⟩
  exact Nat.isDigit_of_mem_toDigits (by decide) (by decide) (hDigits ▸ List.mem_cons_self)

/-! ### Intervals -/

namespace Parts

/-- The exponent of the significand, counted from the least one. -/
def step (parts : Parts) : Nat := (parts.exponent + 1074).toNat

/-- The lower end of the numbers that read back, in units of a quarter of the least double. -/
def low (parts : Parts) : Nat :=
  (4 * parts.significand - if parts.narrow then 1 else 2) * 2 ^ parts.step

/-- The upper end of the numbers that read back. -/
def high (parts : Parts) : Nat := (4 * parts.significand + 2) * 2 ^ parts.step

/-- The decimal lies between the ends, and it is one of them only if the significand is even. -/
structure Holds (parts : Parts) (places steps : Nat) : Prop where
  low_le : parts.low * 10 ^ places ≤ 4 * steps * 2 ^ 1074
  le_high : 4 * steps * 2 ^ 1074 ≤ parts.high * 10 ^ places
  inside : parts.significand % 2 = 1 → parts.low * 10 ^ places < 4 * steps * 2 ^ 1074 ∧
    4 * steps * 2 ^ 1074 < parts.high * 10 ^ places

/-- The parts are those of the double with these bits, the sign aside. -/
structure Places (parts : Parts) (bits : Nat) : Prop where
  least : -1074 ≤ parts.exponent
  bits_eq : bits = parts.step * 2 ^ 52 + parts.significand
  significand_lt : parts.significand < 2 ^ 53
  normal : parts.step = 0 ∨ 2 ^ 52 ≤ parts.significand
  narrow_iff : parts.narrow = true ↔ parts.significand = 2 ^ 52 ∧ 0 < parts.step

section Order

variable {a b : Parts} {i j places steps : Nat}

/-- With equal exponents the next significand begins where the last one ends. -/
theorem high_le_low_of_step_eq (ha : a.Places i) (hb : b.Places j) (hij : i < j)
    (hStep : a.step = b.step) :
    a.high < b.low ∨ a.high = b.low ∧ (a.significand % 2 = 1 ∨ b.significand % 2 = 1) := by
  obtain ⟨-, hi, -, hNormal, -⟩ := ha
  obtain ⟨-, hj, -, -, hNarrow⟩ := hb
  have hLess : a.significand < b.significand := by rw [hi, hj, hStep] at hij; omega
  have hWide : b.narrow = false := by
    rw [Bool.eq_false_iff]
    intro h
    have hLeast := hNarrow.mp h
    omega
  rw [high, low, hStep, hWide, if_neg Bool.false_ne_true]
  by_cases hNext : b.significand = a.significand + 1
  · refine .inr ⟨?_, by omega⟩
    rw [hNext, show 4 * (a.significand + 1) - 2 = 4 * a.significand + 2 by omega]
  · exact .inl (Nat.mul_lt_mul_of_pos_right (by omega) (Nat.pow_pos (by decide)))

/-- With a larger exponent the least significand begins where the greatest one before it ends, and
that one is odd. -/
theorem high_le_low_of_step_lt (ha : a.Places i) (hb : b.Places j) (hStep : a.step < b.step) :
    a.high < b.low ∨ a.high = b.low ∧ (a.significand % 2 = 1 ∨ b.significand % 2 = 1) := by
  have hLow : 4 * 2 ^ 52 - 1 ≤ 4 * b.significand - if b.narrow then 1 else 2 := by
    have hNormal := hb.normal
    by_cases hNarrow : b.narrow = true
    · rw [if_pos hNarrow]
      omega
    · rw [if_neg hNarrow]
      have hNot := mt hb.narrow_iff.mpr hNarrow
      omega
  have hPow : 2 * 2 ^ a.step ≤ 2 ^ b.step := by
    rw [← pow_succ']
    exact Nat.pow_le_pow_right (by decide) hStep
  have hBelow : (8 * 2 ^ 52 - 2) * 2 ^ a.step ≤ b.low := calc
    (8 * 2 ^ 52 - 2) * 2 ^ a.step = (4 * 2 ^ 52 - 1) * (2 * 2 ^ a.step) := by ring
    _ ≤ b.low := Nat.mul_le_mul hLow hPow
  have hBound := ha.significand_lt
  have hPos : 0 < 2 ^ a.step := Nat.pow_pos (by decide)
  by_cases hLast : a.significand = 2 ^ 53 - 1
  · have hLe : a.high ≤ b.low := by
      refine le_trans (Nat.mul_le_mul_right _ ?_) hBelow
      omega
    rcases Nat.lt_or_eq_of_le hLe with hLt | hEq
    · exact .inl hLt
    · exact .inr ⟨hEq, .inl (by omega)⟩
  · refine .inl (lt_of_lt_of_le (Nat.mul_lt_mul_of_pos_right ?_ hPos) hBelow)
    omega

theorem high_le_low (ha : a.Places i) (hb : b.Places j) (hij : i < j) :
    a.high < b.low ∨ a.high = b.low ∧ (a.significand % 2 = 1 ∨ b.significand % 2 = 1) := by
  rcases Nat.lt_trichotomy a.step b.step with hLess | hEq | hGreater
  · exact high_le_low_of_step_lt ha hb hLess
  · exact high_le_low_of_step_eq ha hb hij hEq
  · have hPow : (b.step + 1) * 2 ^ 52 ≤ a.step * 2 ^ 52 := Nat.mul_le_mul_right _ hGreater
    have hNormal := ha.normal
    have hBound := hb.significand_lt
    have hi := ha.bits_eq
    have hj := hb.bits_eq
    omega

theorem not_lt_of_holds (ha : a.Places i) (hb : b.Places j) (hHolds : a.Holds places steps)
    (hHolds' : b.Holds places steps) : ¬i < j := by
  intro hij
  have hPos : 0 < 10 ^ places := Nat.pow_pos (by decide)
  have hMeet := le_trans hHolds'.low_le hHolds.le_high
  rcases high_le_low ha hb hij with hLess | ⟨hEq, hOdd | hOdd⟩
  · exact absurd (Nat.le_of_mul_le_mul_right hMeet hPos) (Nat.not_le.mpr hLess)
  · have hApart := lt_of_le_of_lt hHolds'.low_le (hHolds.inside hOdd).2
    rw [hEq] at hApart
    exact lt_irrefl _ hApart
  · have hApart := lt_of_lt_of_le (hHolds'.inside hOdd).1 hHolds.le_high
    rw [hEq] at hApart
    exact lt_irrefl _ hApart

/-- A decimal reads back as one double only. -/
theorem eq_of_holds (ha : a.Places i) (hb : b.Places j) (hHolds : a.Holds places steps)
    (hHolds' : b.Holds places steps) : i = j :=
  Nat.le_antisymm (Nat.not_lt.mp (not_lt_of_holds hb ha hHolds' hHolds))
    (Nat.not_lt.mp (not_lt_of_holds ha hb hHolds hHolds'))

end Order

end Parts

/-! ### The search -/

section Search

variable {significand scale places steps : Nat} {narrow : Bool}

/-- The value itself reads back. -/
theorem readsBack_exact (h : steps * 2 ^ scale = significand * 10 ^ places) :
    readsBack significand scale narrow places steps = true := by
  have hPos : 0 < 10 ^ places := Nat.pow_pos (by decide)
  have hScaled : 4 * steps * 2 ^ scale = 4 * significand * 10 ^ places := by
    rw [Nat.mul_assoc, h, Nat.mul_assoc]
  simp only [readsBack, Nat.pow_eq, hScaled]
  split
  · rw [Bool.and_eq_true, decide_eq_true_eq, decide_eq_true_eq]
    exact ⟨Nat.mul_le_mul_right _ (Nat.sub_le _ _), Nat.mul_le_mul_right _ (Nat.le_add_right _ _)⟩
  · rw [Bool.and_eq_true, decide_eq_true_eq, decide_eq_true_eq]
    refine ⟨Nat.mul_lt_mul_of_pos_right ?_ hPos, Nat.mul_lt_mul_of_pos_right ?_ hPos⟩
    · cases narrow <;> simp <;> omega
    · omega

theorem readsBack_of_stepsAt? (h : stepsAt? significand scale narrow places = some steps) :
    readsBack significand scale narrow places steps = true := by
  simp only [stepsAt?] at h
  split at h
  · next hBoth =>
      rw [Bool.and_eq_true] at hBoth
      split at h
      · cases h
        exact hBoth.1
      · cases h
        exact hBoth.2
  split at h
  · next hLower =>
      cases h
      exact hLower
  split at h
  · next hUpper =>
      cases h
      exact hUpper
  · cases h

/-- The search ends with a decimal that reads back, if the value itself is on the last grid that it
comes to. -/
theorem readsBack_searchPlaces (significand scale : Nat) (narrow : Bool) (tries places : Nat)
    (hPlaces : 0 < places) (h : scale ≤ places + tries) :
    ∃ last steps, searchPlaces significand scale narrow tries places = (last, steps) ∧ 0 < last ∧
      readsBack significand scale narrow last steps = true := by
  induction tries generalizing places with
  | zero =>
      refine ⟨places, _, rfl, hPlaces, readsBack_exact (Nat.div_mul_cancel ?_)⟩
      have hTwo : 2 ^ scale ∣ 10 ^ scale := pow_dvd_pow_of_dvd (by decide) scale
      exact Dvd.dvd.mul_left (hTwo.trans (pow_dvd_pow 10 h)) significand
  | succ tries ih =>
      rw [searchPlaces]
      cases hSteps : stepsAt? significand scale narrow places with
      | some steps => exact ⟨places, steps, rfl, hPlaces, readsBack_of_stepsAt? hSteps⟩
      | none => exact ih (places + 1) (Nat.succ_pos places) (by omega)

end Search

namespace Parts

variable {parts : Parts} {bits places steps : Nat}

/-- The value itself lies in its interval. -/
theorem holds_exact (h : steps * 2 ^ 1074 = parts.significand * 2 ^ parts.step * 10 ^ places) :
    parts.Holds places steps := by
  have hPos : 0 < 2 ^ parts.step * 10 ^ places :=
    Nat.mul_pos (Nat.pow_pos (by decide)) (Nat.pow_pos (by decide))
  have hScaled : 4 * steps * 2 ^ 1074 = 4 * parts.significand * (2 ^ parts.step * 10 ^ places) := by
    rw [Nat.mul_assoc, h]
    ring
  have hLow : parts.low * 10 ^ places = (4 * parts.significand - if parts.narrow then 1 else 2) *
      (2 ^ parts.step * 10 ^ places) := Nat.mul_assoc _ _ _
  have hHigh : parts.high * 10 ^ places =
      (4 * parts.significand + 2) * (2 ^ parts.step * 10 ^ places) := Nat.mul_assoc _ _ _
  constructor <;> rw [hScaled]
  · rw [hLow]
    exact Nat.mul_le_mul_right _ (Nat.sub_le _ _)
  · rw [hHigh]
    exact Nat.mul_le_mul_right _ (Nat.le_add_right _ _)
  · intro hOdd
    rw [hLow, hHigh]
    refine ⟨Nat.mul_lt_mul_of_pos_right ?_ hPos, Nat.mul_lt_mul_of_pos_right (by omega) hPos⟩
    split <;> omega

theorem step_add_scale (hLeast : -1074 ≤ parts.exponent) (hNegative : parts.exponent < 0) :
    parts.step + (-parts.exponent).toNat = 1074 := by
  rw [step]
  omega

theorem holds_of_readsBack (hLeast : -1074 ≤ parts.exponent) (hNegative : parts.exponent < 0)
    (h : readsBack parts.significand (-parts.exponent).toNat parts.narrow places steps = true) :
    parts.Holds places steps := by
  have hPos : 0 < 2 ^ parts.step := Nat.pow_pos (by decide)
  have hScaled : 4 * steps * 2 ^ 1074 =
      4 * steps * 2 ^ (-parts.exponent).toNat * 2 ^ parts.step := by
    rw [← step_add_scale hLeast hNegative]
    ring
  have hLow : parts.low * 10 ^ places =
      (4 * parts.significand - if parts.narrow then 1 else 2) * 10 ^ places * 2 ^ parts.step := by
    rw [low]
    ring
  have hHigh : parts.high * 10 ^ places =
      (4 * parts.significand + 2) * 10 ^ places * 2 ^ parts.step := by
    rw [high]
    ring
  simp only [readsBack, Nat.pow_eq] at h
  split at h
  · next hEven =>
      rw [Bool.and_eq_true, decide_eq_true_eq, decide_eq_true_eq] at h
      constructor <;> rw [hScaled]
      · rw [hLow]
        exact Nat.mul_le_mul_right _ h.1
      · rw [hHigh]
        exact Nat.mul_le_mul_right _ h.2
      · omega
  · rw [Bool.and_eq_true, decide_eq_true_eq, decide_eq_true_eq] at h
    have hInside : parts.low * 10 ^ places < 4 * steps * 2 ^ 1074 ∧
        4 * steps * 2 ^ 1074 < parts.high * 10 ^ places := by
      rw [hScaled, hLow, hHigh]
      exact ⟨Nat.mul_lt_mul_of_pos_right h.1 hPos, Nat.mul_lt_mul_of_pos_right h.2 hPos⟩
    exact ⟨hInside.1.le, hInside.2.le, fun _ => hInside⟩

/-- A whole number is its own value. -/
theorem holds_of_whole? {n : Nat} (hLeast : -1074 ≤ parts.exponent) (h : parts.whole? = some n) :
    parts.Holds 1 (10 * n) := by
  apply holds_exact
  simp only [whole?, Nat.pow_eq] at h
  split at h
  · next hWhole =>
      cases h
      rw [show parts.step = parts.exponent.toNat + 1074 by rw [step]; omega, pow_add]
      generalize 2 ^ 1074 = unit
      ring
  · next hFraction =>
      split at h
      · next hMod =>
          cases h
          have hExact := Nat.div_mul_cancel (Nat.dvd_of_mod_eq_zero hMod)
          rw [← step_add_scale hLeast (by omega), pow_add]
          calc _ = parts.significand / 2 ^ (-parts.exponent).toNat * 2 ^ (-parts.exponent).toNat *
                2 ^ parts.step * 10 ^ 1 := by ring
            _ = _ := by rw [hExact]
      · cases h

/-- The text of the absolute value is that of a decimal that reads back. -/
theorem exists_magnitude (hLeast : -1074 ≤ parts.exponent) :
    ∃ places steps, parts.magnitude = positional places steps ∧ 0 < places ∧
      parts.Holds places steps := by
  unfold magnitude
  split
  · next n hWhole =>
      exact ⟨1, 10 * n, (positional_one n).symm, Nat.one_pos, holds_of_whole? hLeast hWhole⟩
  · next hWhole =>
      have hNegative : parts.exponent < 0 := by
        by_contra hNot
        rw [whole?, if_pos (by omega)] at hWhole
        cases hWhole
      obtain ⟨places, steps, hSearch, hPlaces, hReads⟩ := readsBack_searchPlaces parts.significand
        (-parts.exponent).toNat parts.narrow (-parts.exponent).toNat 1 Nat.one_pos (Nat.le_add_left _ 1)
      exact ⟨places, steps, by simp only [hSearch], hPlaces, holds_of_readsBack hLeast hNegative hReads⟩

/-- Equal texts of absolute values are those of one double. -/
theorem magnitude_inj {a b : Parts} {i j : Nat} (ha : a.Places i) (hb : b.Places j)
    (h : a.magnitude = b.magnitude) : i = j := by
  obtain ⟨places, steps, hText, hPlaces, hHolds⟩ := exists_magnitude ha.least
  obtain ⟨places', steps', hText', hPlaces', hHolds'⟩ := exists_magnitude hb.least
  obtain ⟨rfl, rfl⟩ := positional_inj hPlaces hPlaces' (hText.symm.trans (h.trans hText'))
  exact eq_of_holds ha hb hHolds hHolds'

end Parts

/-! ### Bits -/

/-- The parts of a finite double say where it stands among those of its sign. -/
theorem Reading.finite_ofBits {bits : Nat} {parts : Parts} (h : ofBits bits = .finite parts) :
    parts.Places (bits % 2 ^ 63) ∧ parts.negative = decide (2 ^ 63 ≤ bits) := by
  simp only [ofBits, Nat.pow_eq] at h
  split at h
  · split at h <;> cases h
  · split at h
    · next hField =>
        cases h
        refine ⟨⟨le_refl _, ?_, ?_, .inl rfl, ?_⟩, rfl⟩
        · simp only [Parts.step]
          omega
        · dsimp only
          omega
        · simp [Parts.step]
    · next hTop hField =>
        cases h
        refine ⟨⟨?_, ?_, ?_, .inr ?_, ?_⟩, rfl⟩
        · dsimp only
          omega
        · simp only [Parts.step]
          omega
        · dsimp only
          omega
        · dsimp only
          omega
        · simp only [Parts.step, Bool.and_eq_true, decide_eq_true_eq]
          omega

theorem Reading.infinite_ofBits {bits : Nat} {negative : Bool} (h : ofBits bits = .infinite negative) :
    bits % 2 ^ 63 = infinityBits ∧ negative = decide (2 ^ 63 ≤ bits) := by
  simp only [ofBits, Nat.pow_eq] at h
  split at h
  · split at h
    · cases h
      refine ⟨?_, rfl⟩
      rw [infinityBits, Nat.pow_eq]
      omega
    · cases h
  · split at h <;> cases h

/-- The float is a number, finite or not. -/
def IsNumber (x : Float) : Prop := Reading.ofBits x.toBits.toNat ≠ .notANumber

theorem Parts.Places.head_magnitude {parts : Parts} {bits : Nat} (h : parts.Places bits) :
    ∃ c rest, parts.magnitude = c :: rest ∧ c.isDigit = true := by
  obtain ⟨places, steps, hText, -⟩ := exists_magnitude h.least
  rw [hText]
  exact head_positional places steps

/-- The first characters tell the signs apart, and an infinite double from a finite one. -/
theorem Reading.text_finite_ne_infinite {parts : Parts} {bits : Nat} (h : parts.Places bits)
    (negative : Bool) : (finite parts).text ≠ (infinite negative).text := by
  obtain ⟨c, rest, hText, hDigit⟩ := h.head_magnitude
  have hMinus : c ≠ '-' := by rintro rfl; cases hDigit
  have hInf : c ≠ 'i' := by rintro rfl; cases hDigit
  cases hNegative : parts.negative <;> cases negative <;> simp [text, hNegative, hText, hMinus, hInf]

theorem Reading.text_finite_inj {a b : Parts} {i j : Nat} (ha : a.Places i) (hb : b.Places j)
    (h : (finite a).text = (finite b).text) : a.negative = b.negative ∧ i = j := by
  obtain ⟨c, rest, hText, hDigit⟩ := ha.head_magnitude
  obtain ⟨d, more, hText', hDigit'⟩ := hb.head_magnitude
  have hMinus : c ≠ '-' := by rintro rfl; cases hDigit
  have hMinus' : '-' ≠ d := by rintro rfl; cases hDigit'
  cases hNegative : a.negative <;> cases hNegative' : b.negative <;>
    simp only [text, hNegative, hNegative', if_true, if_false, Bool.false_eq_true] at h
  · exact ⟨rfl, Parts.magnitude_inj ha hb h⟩
  · rw [hText] at h
    exact absurd (List.head_eq_of_cons_eq h) hMinus
  · rw [hText'] at h
    exact absurd (List.head_eq_of_cons_eq h) hMinus'
  · exact ⟨rfl, Parts.magnitude_inj ha hb (List.tail_eq_of_cons_eq h)⟩

/-- The text of a double that is a number says which one it is. -/
theorem Reading.ofBits_inj {bits bits' : Nat} (hBits : bits < 2 ^ 64) (hBits' : bits' < 2 ^ 64)
    (hNumber : ofBits bits ≠ .notANumber) (hNumber' : ofBits bits' ≠ .notANumber)
    (h : (ofBits bits).text = (ofBits bits').text) : bits = bits' := by
  have hSplit (hRest : bits % 2 ^ 63 = bits' % 2 ^ 63)
      (hSign : decide (2 ^ 63 ≤ bits) = decide (2 ^ 63 ≤ bits')) : bits = bits' := by
    rw [decide_eq_decide] at hSign
    omega
  cases hRead : ofBits bits with
  | notANumber => exact absurd hRead hNumber
  | finite parts =>
      obtain ⟨hPlaces, hSign⟩ := finite_ofBits hRead
      cases hRead' : ofBits bits' with
      | notANumber => exact absurd hRead' hNumber'
      | finite parts' =>
          obtain ⟨hPlaces', hSign'⟩ := finite_ofBits hRead'
          rw [hRead, hRead'] at h
          obtain ⟨hNegative, hRest⟩ := text_finite_inj hPlaces hPlaces' h
          exact hSplit hRest (by rw [← hSign, ← hSign', hNegative])
      | infinite negative' =>
          rw [hRead, hRead'] at h
          exact absurd h (text_finite_ne_infinite hPlaces negative')
  | infinite negative =>
      obtain ⟨hRest, hSign⟩ := infinite_ofBits hRead
      cases hRead' : ofBits bits' with
      | notANumber => exact absurd hRead' hNumber'
      | finite parts' =>
          rw [hRead, hRead'] at h
          exact absurd h.symm (text_finite_ne_infinite (finite_ofBits hRead').1 negative)
      | infinite negative' =>
          obtain ⟨hRest', hSign'⟩ := infinite_ofBits hRead'
          rw [hRead, hRead'] at h
          have hNegative : negative = negative' := by
            cases negative <;> cases negative' <;> first | rfl | cases h
          exact hSplit (hRest.trans hRest'.symm) (by rw [← hSign, ← hSign', hNegative])

/-- Two floats that are numbers have different texts. -/
theorem floatText_inj {x y : Float} (hx : IsNumber x) (hy : IsNumber y)
    (h : floatText x = floatText y) : x = y := by
  have hText := Reading.ofBits_inj x.toBits.toNat_lt y.toBits.toNat_lt hx hy (String.ofList_injective h)
  -- A float is nothing but its bits.
  have hBits : x.toModel.toBits = y.toModel.toBits := UInt64.toNat_inj.mp hText
  rcases x with ⟨⟨bits, hValid⟩⟩
  rcases y with ⟨⟨bits', hValid'⟩⟩
  cases hBits
  rfl

/-- The characters that a number can be written with. -/
def isNumeral (c : Char) : Bool := c.isAlphanum || c = '-' || c = '.'

theorem isNumeral_of_isDigit {c : Char} (h : c.isDigit = true) : isNumeral c = true := by
  simp [isNumeral, Char.isAlphanum, h]

theorem isNumeral_of_mem_floatText {x : Float} {c : Char} (h : c ∈ (floatText x).toList) :
    isNumeral c = true := by
  rw [floatText, String.toList_ofList] at h
  have hMagnitude {parts : Parts} (hRead : Reading.ofBits x.toBits.toNat = .finite parts)
      (hc : c ∈ parts.magnitude) : isNumeral c = true := by
    obtain ⟨places, steps, hText, -⟩ := Parts.exists_magnitude (Reading.finite_ofBits hRead).1.least
    rcases mem_positional (hText ▸ hc) with hDigit | rfl
    · exact isNumeral_of_isDigit hDigit
    · rfl
  cases hRead : Reading.ofBits x.toBits.toNat with
  | notANumber =>
      have hAll : Reading.notANumber.text.all isNumeral = true := rfl
      exact List.all_eq_true.mp hAll c (hRead ▸ h)
  | infinite negative =>
      have hAll : (Reading.infinite negative).text.all isNumeral = true := by cases negative <;> rfl
      exact List.all_eq_true.mp hAll c (hRead ▸ h)
  | finite parts =>
      rw [hRead, Reading.text] at h
      split at h
      · rcases List.mem_cons.mp h with rfl | hc
        · rfl
        · exact hMagnitude hRead hc
      · exact hMagnitude hRead h

section Packing

open Float.Model Float.Model.UnpackedFloat

/-- The bits have the greatest exponent, and a mantissa. -/
def IsNaN {format : Format} (bits : BitVec format.numBits) : Prop :=
  unpackExponent bits = -1#_ ∧ unpackMantissa bits ≠ 0#_

theorem isNaN_of_unpack {format : Format} {bits : BitVec format.numBits}
    (h : UnpackedFloat.unpack format bits = .notANumber) : IsNaN bits := by
  by_cases hExponent : unpackExponent bits = -1#_
  · by_cases hMantissa : unpackMantissa bits = 0#_
    · cases ((if_pos hExponent).trans (if_pos hMantissa)).symm.trans h
    · exact ⟨hExponent, hMantissa⟩
  · have hFinite := (if_neg hExponent).symm.trans h
    by_cases hLeast : unpackExponent bits = 0#_
    · have hSmall := (if_pos hLeast).symm.trans hFinite
      by_cases hMantissa : unpackMantissa bits = 0#_
      · cases (dif_pos hMantissa).symm.trans hSmall
      · cases (dif_neg hMantissa).symm.trans hSmall
    · cases (if_neg hLeast).symm.trans hFinite

/-- Nothing but what is not a number is packed into such bits. -/
theorem eq_notANumber_of_isNaN {format : Format} {value : UnpackedFloat}
    (h : IsNaN (UnpackedFloat.pack format value)) : value = .notANumber := by
  obtain ⟨hExponent, hMantissa⟩ := h
  have hLeast : ¬(0 : BitVec format.exponentBits) = -1#_ :=
    mt BitVec.zero_eq_neg_one_iff.mp (Nat.ne_of_gt format.he)
  revert hExponent hMantissa
  fun_cases UnpackedFloat.pack format value with
  | case1 =>
      intro _ _
      rfl
  | case2 sign | case4 sign =>
      intro _ hMantissa
      exact absurd unpackMantissa_packComponents hMantissa
  | case3 sign | case6 sign =>
      intro hExponent
      exact absurd (unpackExponent_packComponents.symm.trans hExponent) hLeast
  | case5 sign mantissa exponent hPos mantissaBits biased hFits hNormal =>
      intro hExponent
      have hBiased := congrArg BitVec.toNat hExponent
      rw [unpackExponent_packComponents, BitVec.neg_one_eq_allOnes, BitVec.toNat_allOnes,
        BitVec.toNat_ofNat, Nat.mod_eq_of_lt (by omega)] at hBiased
      omega

/-- The bits that are read as no number are these. -/
theorem Reading.ofBits_eq_notANumber_iff (word : UInt64) :
    ofBits word.toNat = .notANumber ↔ @IsNaN Format.binary64 word.toBitVec := by
  have hExponent : (@unpackExponent Format.binary64 word.toBitVec).toNat =
      word.toNat / 2 ^ 52 % 2 ^ 11 := by
    rw [unpackExponent, BitVec.toNat_cast, BitVec.extractLsb_toNat, Nat.shiftRight_eq_div_pow]
    rfl
  have hMantissa : (@unpackMantissa Format.binary64 word.toBitVec).toNat = word.toNat % 2 ^ 52 := by
    rw [unpackMantissa, BitVec.toNat_cast, BitVec.extractLsb_toNat, Nat.shiftRight_zero]
    rfl
  have hNaN : @IsNaN Format.binary64 word.toBitVec ↔
      word.toNat / 2 ^ 52 % 2 ^ 11 = 0x7FF ∧ ¬word.toNat % 2 ^ 52 = 0 := by
    rw [IsNaN, ne_eq, ← BitVec.toNat_inj, ← BitVec.toNat_inj, hExponent, hMantissa]
    rfl
  rw [hNaN]
  simp only [Reading.ofBits, Nat.pow_eq]
  constructor
  · intro h
    split at h
    · next hField =>
        split at h
        · cases h
        · next hFraction => exact ⟨hField, hFraction⟩
    · split at h <;> cases h
  · rintro ⟨hField, hFraction⟩
    rw [if_pos hField, if_neg hFraction]

/-- Bits that are read as a number are those of one. -/
theorem isNumber_ofBits {word : UInt64} (h : Reading.ofBits word.toNat ≠ .notANumber) :
    IsNumber (Float.ofBits word) := by
  intro hNone
  apply h
  rw [Reading.ofBits_eq_notANumber_iff] at hNone ⊢
  exact isNaN_of_unpack (eq_notANumber_of_isNaN hNone)

end Packing

theorem nearestBits_le (num den : Nat) : nearestBits num den ≤ infinityBits := by
  fun_cases nearestBits num den
  · exact Nat.zero_le infinityBits
  · exact Nat.min_le_left infinityBits _

/-- Rounding gives a number. -/
theorem isNumber_nearest (negative : Bool) (num den : Nat) : IsNumber (nearest negative num den) := by
  have hLe := nearestBits_le num den
  rw [infinityBits, Nat.pow_eq] at hLe
  set bits := nearestBits num den + if negative then Nat.pow 2 63 else 0 with hBits
  have hLess : bits < 2 ^ 64 := by
    rw [hBits, Nat.pow_eq]
    split <;> omega
  have hNumber : Reading.ofBits (UInt64.ofNat bits).toNat ≠ .notANumber := by
    rw [UInt64.toNat_ofNat_of_lt' hLess]
    simp only [Reading.ofBits, Nat.pow_eq]
    split
    · next hField =>
        have hFraction : bits % 2 ^ 52 = 0 := by
          rw [hBits] at hField ⊢
          cases negative <;>
            simp only [Nat.pow_eq, if_true, if_false, Bool.false_eq_true] at hField ⊢ <;> omega
        rw [if_pos hFraction]
        nofun
    · split <;> nofun
  exact isNumber_ofBits hNumber

end Decimal

end Progression
