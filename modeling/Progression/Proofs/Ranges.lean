import Progression.Proofs.Sequential
import Progression.Proofs.Strictness

/-! Ranges are exact. A range with int bounds is the list of all integers between them, or a failure
that is reported once and says why; and nothing that is computed on the way to it is too large for the
word that it is computed in. -/

namespace Progression

/-- A sequence of `n` elements can be allocated: a machine word can count them, and there is room for
them. -/
def Config.Allocates (config : Config) (n : Nat) : Prop := n < UInt64.size ∧ config.holds n = true

/-- The outcome is a failure, and just this is reported. -/
structure Outcome.FailsWith (outcome : Outcome Value) (cause : RuntimeError) (span : Span) :
    Prop where
  value : outcome.value = .error
  reports : outcome.reports = [⟨.runtime cause, span, none⟩]

/-- The outcome is the sequence of these integers, and nothing is reported. -/
structure Outcome.Lists (outcome : Outcome Value) (integers : List Int) : Prop where
  value : ∃ words : List Int64, outcome.value = .sequence (words.map .int) ∧
    words.map Int64.toInt = integers
  reports : outcome.reports = []

namespace Integer

/-- A word of 128 bits holds the value. -/
def Wide (i : Int) : Prop := (BitVec.ofInt 128 i).toInt = i

theorem wide_of_le {i : Int} (hLower : -UInt64.size ≤ i) (hUpper : i ≤ UInt64.size) : Wide i := by
  rw [Wide, BitVec.toInt_ofInt]
  apply Int.bmod_eq_of_le
  · simp only [UInt64.size] at hLower
    omega
  · simp only [UInt64.size] at hUpper
    omega

theorem rangeSize_of_le {lower upper : Int64} (h : lower.toInt ≤ upper.toInt) :
    (rangeSize lower upper : Int) = upper.toInt - lower.toInt + 1 := by
  rw [rangeSize]
  omega

theorem rangeSize_le (lower upper : Int64) : rangeSize lower upper ≤ UInt64.size := by
  have hLower := lower.minValue_le_toInt
  have hUpper := upper.toInt_le
  rw [Int64.toInt_minValue] at hLower
  rw [Int64.toInt_maxValue] at hUpper
  rw [rangeSize, UInt64.size]
  omega

/-- The words from `first` on, one more each time, for the given number of slots. Nothing follows
after `upper`. The sum of two words is taken as a word, whether it is exact or not. -/
def countUp (first upper : Int64) : Nat → List Int64
  | 0 => []
  | slots + 1 =>
      if first < upper then first :: countUp (first + 1) upper slots
      else if first = upper then [first]
      else []

/-- A word below another has an exact successor. -/
theorem toInt_add_one {first upper : Int64} (h : first < upper) :
    (first + 1).toInt = first.toInt + 1 := by
  have hLess := Int64.lt_iff_toInt_lt.mp h
  have hLower := first.minValue_le_toInt
  have hUpper := upper.toInt_le
  rw [Int64.toInt_minValue] at hLower
  rw [Int64.toInt_maxValue] at hUpper
  rw [Int64.toInt_add, Int64.toInt_one]
  apply Int.bmod_eq_of_le
  · omega
  · omega

/-- If the slots do not reach beyond `upper`, counting up fills all of them with the exact
integers. -/
theorem countUp_toInt {first upper : Int64} {slots : Nat}
    (h : first.toInt + slots ≤ upper.toInt + 1) :
    (countUp first upper slots).map Int64.toInt =
      (List.range slots).map fun (k : Nat) => first.toInt + k := by
  induction slots generalizing first with
  | zero => rfl
  | succ slots ih =>
      rw [countUp]
      by_cases hLess : first < upper
      · have hNext := toInt_add_one hLess
        rw [if_pos hLess, List.map_cons, ih (by omega), hNext, List.range_succ_eq_map,
          List.map_cons, List.map_map]
        congr 1
        · omega
        · apply List.map_congr_left
          intro k _
          simp only [Function.comp_apply]
          omega
      · -- Only `upper` itself is left, for the last slot.
        have hNotLess : ¬first.toInt < upper.toInt := fun hLt =>
          hLess (Int64.lt_iff_toInt_lt.mpr hLt)
        have hSame : first = upper := Int64.toInt_inj.mp (by omega)
        have hLast : slots = 0 := by omega
        subst hLast
        rw [if_neg hLess, if_pos hSame]
        simp

end Integer

/-- How a slice of the range from `lower` to `upper` is filled. Its indices are indices of the range,
and a word holds the integer that it begins with. Counting up from there in words, but not beyond
`upper`, gives the values of the slice, and these are the exact integers for all of its indices. -/
structure Slice.Filled (lower upper : Int64) (slice : Slice) : Prop where
  inside : slice.start < slice.stop ∧ slice.stop ≤ Integer.rangeSize lower upper
  counted : ∃ first, Integer.element? lower slice.start = some first ∧
    first.toInt = lower.toInt + slice.start ∧
    Eval.rangeSlice lower slice = (Integer.countUp first upper slice.size).map .int ∧
    (Integer.countUp first upper slice.size).map Int64.toInt =
      (List.range' slice.start slice.size).map fun (k : Nat) => lower.toInt + k

/-- Every slice of a range is filled with exact integers, also where the range ends with the last of
all words. -/
theorem slices_filled {lower upper : Int64} {workers : Nat} (hWorkers : 0 < workers) :
    ∀ slice ∈ slices (Integer.rangeSize lower upper) workers, slice.Filled lower upper := by
  intro slice hSlice
  have hTiles := slices_tiles (Integer.rangeSize lower upper) hWorkers
  have hPos := hTiles.size_pos hSlice
  have hStop := hTiles.stop_le hSlice
  have hInside : slice.start < slice.stop := by
    rw [Slice.size] at hPos
    omega
  have hOrder : lower.toInt ≤ upper.toInt := by
    rw [Integer.rangeSize] at hStop
    omega
  have hSize := Integer.rangeSize_of_le hOrder
  have hLower := lower.minValue_le_toInt
  have hUpper := upper.toInt_le
  have hRange : Int64.minValue.toInt ≤ lower.toInt + slice.start ∧
      lower.toInt + slice.start ≤ Int64.maxValue.toInt := by
    constructor <;> omega
  have hElement : Integer.element? lower slice.start =
      some (Int64.ofInt (lower.toInt + slice.start)) := if_pos hRange
  have hFirst := Integer.fit?_eq_some_iff.mp hElement
  have hCounted := @Integer.countUp_toInt (Int64.ofInt (lower.toInt + slice.start)) upper slice.size
    (by rw [hFirst, Slice.size]; omega)
  refine ⟨⟨hInside, hStop⟩, _, hElement, hFirst, ?_, ?_⟩
  · have hWords := congrArg (List.map Int64.ofInt) hCounted
    simp only [List.map_map, Function.comp_def, Int64.ofInt_toInt, List.map_id'] at hWords
    rw [Eval.rangeSlice, hElement, hWords, List.map_map]
    rfl
  · rw [hCounted, hFirst, List.range'_eq_map_range, List.map_map]
    apply List.map_congr_left
    intro k _
    simp only [Function.comp_apply]
    omega

/-- A range whose bounds are ints is what these ints span. -/
theorem Expr.eval_range {config : Config} (mark : Mark) {lower upper : Expr} {bindings : Bindings}
    {lo hi : Int64} (hLower : (lower.eval config bindings).value = .int lo)
    (hUpper : (upper.eval config (lower.eval config bindings).bindings).value = .int hi) :
    ((Expr.range mark lower upper).eval config bindings).value =
        (Sequential.interval config.holds mark.span lo hi).value ∧
      ((Expr.range mark lower upper).eval config bindings).reports =
        (Sequential.interval config.holds mark.span lo hi).reports := by
  have hSilentLower := reports_eq_nil (e := lower) (by rw [hLower]; simp)
  have hSilentUpper := reports_eq_nil (e := upper) (by rw [hUpper]; simp)
  simp only [eval, Eval.bind_apply, hLower, hUpper, hSilentLower, hSilentUpper, List.nil_append,
    Eval.range, Eval.ints_eq, Answer.outcome, and_self]

namespace Sequential

variable {holds : Nat → Bool} {span : Span} {lower upper : Int64}

theorem interval_of_lt (h : upper.toInt < lower.toInt) :
    interval holds span lower upper = .failure .invertedRange span := if_pos h

theorem interval_of_full (h : lower.toInt ≤ upper.toInt)
    (hRoom : ¬(Integer.rangeSize lower upper < UInt64.size ∧
      holds (Integer.rangeSize lower upper) = true)) :
    interval holds span lower upper =
      .failure (.rangeTooLarge (Integer.rangeSize lower upper)) span :=
  (if_neg (by omega)).trans (if_neg hRoom)

/-- The words of a range that has room are its integers. -/
theorem interval_of_room (h : lower.toInt ≤ upper.toInt)
    (hRoom : Integer.rangeSize lower upper < UInt64.size ∧
      holds (Integer.rangeSize lower upper) = true) :
    ∃ words : List Int64, interval holds span lower upper = ⟨.sequence (words.map .int), []⟩ ∧
      words.map Int64.toInt =
        (List.range (Integer.rangeSize lower upper)).map fun (k : Nat) => lower.toInt + k := by
  have hSize := Integer.rangeSize_of_le h
  have hLower := lower.minValue_le_toInt
  have hUpper := upper.toInt_le
  refine ⟨(List.range (Integer.rangeSize lower upper)).map fun (k : Nat) =>
    Int64.ofInt (lower.toInt + k), ?_, ?_⟩
  · rw [List.map_map]
    exact (if_neg (by omega)).trans (if_pos hRoom)
  · rw [List.map_map]
    apply List.map_congr_left
    intro k hMem
    have hLess := List.mem_range.mp hMem
    have hRange : Int64.minValue.toInt ≤ lower.toInt + k ∧
        lower.toInt + k ≤ Int64.maxValue.toInt := by
      constructor <;> omega
    exact Integer.fit?_eq_some_iff.mp (if_pos hRange)

end Sequential

/-- The range between two ints, on whatever bounds they are the values of. If they are in the wrong
order, or if the integers cannot be allocated, it fails and this is all that is reported; for the
latter the number of integers is named exactly. Otherwise it is the sequence of all integers between
them. The number is computed in a word of 128 bits that holds it on the way, the first integer of
every slice is a word, and every slice is filled by counting up in words without leaving them. -/
theorem range_exact (config : Config) (mark : Mark) (lower upper : Expr) (bindings : Bindings)
    (lo hi : Int64) (hLower : (lower.eval config bindings).value = .int lo)
    (hUpper : (upper.eval config (lower.eval config bindings).bindings).value = .int hi) :
    (hi.toInt < lo.toInt →
      ((Expr.range mark lower upper).eval config bindings).FailsWith .invertedRange mark.span) ∧
    (lo.toInt ≤ hi.toInt →
      (Integer.rangeSize lo hi : Int) = hi.toInt - lo.toInt + 1 ∧
      Integer.rangeSize lo hi ≤ UInt64.size ∧
      (config.Allocates (Integer.rangeSize lo hi) →
        ((Expr.range mark lower upper).eval config bindings).Lists
          ((List.range (Integer.rangeSize lo hi)).map fun (k : Nat) => lo.toInt + k)) ∧
      (¬config.Allocates (Integer.rangeSize lo hi) →
        ((Expr.range mark lower upper).eval config bindings).FailsWith
          (.rangeTooLarge (Integer.rangeSize lo hi)) mark.span)) ∧
    Integer.Wide (hi.toInt - lo.toInt) ∧ Integer.Wide (hi.toInt - lo.toInt + 1) ∧
    ∀ slice ∈ slices (Integer.rangeSize lo hi) config.workers, slice.Filled lo hi := by
  obtain ⟨hValue, hReports⟩ := Expr.eval_range mark hLower hUpper
  have hBounds : -(UInt64.size : Int) < hi.toInt - lo.toInt ∧
      hi.toInt - lo.toInt < UInt64.size := by
    have hLo := And.intro lo.minValue_le_toInt lo.toInt_le
    have hHi := And.intro hi.minValue_le_toInt hi.toInt_le
    simp only [Int64.toInt_minValue, Int64.toInt_maxValue, UInt64.size] at hLo hHi ⊢
    omega
  refine ⟨?_, ?_, Integer.wide_of_le (by omega) (by omega),
    Integer.wide_of_le (by omega) (by omega), slices_filled config.workers_pos⟩
  · intro hInverted
    rw [Sequential.interval_of_lt hInverted] at hValue hReports
    exact ⟨hValue, hReports⟩
  · intro hOrder
    refine ⟨Integer.rangeSize_of_le hOrder, Integer.rangeSize_le lo hi, ?_, ?_⟩
    · intro hRoom
      obtain ⟨words, hInterval, hWords⟩ := Sequential.interval_of_room hOrder hRoom
      rw [hInterval] at hValue hReports
      exact ⟨⟨words, hValue, hWords⟩, hReports⟩
    · intro hFull
      rw [Sequential.interval_of_full hOrder hFull] at hValue hReports
      exact ⟨hValue, hReports⟩

/-- The last four words in three slices, the last of which takes two of them; and the range of all
words, which are one more than a machine word can count. -/
theorem range_exact_extremes :
    ∃ (mark : Mark) (last : List Int),
      last = [9223372036854775804, 9223372036854775805, 9223372036854775806,
        9223372036854775807] ∧
      ((Expr.range mark (.int mark 9223372036854775804) (.int mark Int64.maxValue)).eval
        (Config.ofWorkers 3) Bindings.empty).Lists last ∧
      ((Expr.range mark (.int mark Int64.minValue) (.int mark Int64.maxValue)).eval
        (Config.ofWorkers 3) Bindings.empty).FailsWith (.rangeTooLarge 18446744073709551616)
          mark.span := by
  have hBounds (lo hi : Int64) := range_exact (Config.ofWorkers 3) ⟨⟨⟨1, 5⟩, ⟨1, 48⟩⟩, none⟩
    (.int ⟨⟨⟨1, 5⟩, ⟨1, 48⟩⟩, none⟩ lo) (.int ⟨⟨⟨1, 5⟩, ⟨1, 48⟩⟩, none⟩ hi) Bindings.empty lo hi
    rfl rfl
  refine ⟨⟨⟨⟨1, 5⟩, ⟨1, 48⟩⟩, none⟩, _, rfl, ?_, ?_⟩
  · obtain ⟨-, hOrdered, -⟩ := hBounds 9223372036854775804 Int64.maxValue
    obtain ⟨-, -, hRoom, -⟩ := hOrdered (by decide +kernel)
    exact hRoom ⟨by decide +kernel, by decide +kernel⟩
  · obtain ⟨-, hOrdered, -⟩ := hBounds Int64.minValue Int64.maxValue
    obtain ⟨-, -, -, hFull⟩ := hOrdered (by decide +kernel)
    apply hFull
    intro hRoom
    exact absurd hRoom.1 (by decide +kernel)

end Progression
