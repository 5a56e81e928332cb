import Mathlib.Data.List.Basic
import Progression.Evaluation

/-! Slices cover the indices of a sequence once and in order, so work done slice by slice is work
done on the whole, and no slice is empty. -/

namespace Progression

/-- The slices are nonempty and lead from `start` to `stop`, each beginning where the one before
ends. -/
inductive Tiles : Nat → List Slice → Nat → Prop where
  | done (stop : Nat) : Tiles stop [] stop
  | slice {start middle stop : Nat} {rest : List Slice} (hNonempty : start < middle)
      (hRest : Tiles middle rest stop) : Tiles start (⟨start, middle⟩ :: rest) stop

namespace Tiles

variable {start stop : Nat} {pieces : List Slice}

theorem start_le (h : Tiles start pieces stop) : start ≤ stop := by
  induction h with
  | done => exact Nat.le_refl _
  | slice hNonempty _ ih => omega

theorem size_pos (h : Tiles start pieces stop) {slice : Slice} (hMem : slice ∈ pieces) :
    0 < slice.size := by
  induction h with
  | done => cases hMem
  | slice hNonempty _ ih =>
      rcases List.mem_cons.mp hMem with rfl | hMem
      · exact Nat.sub_pos_of_lt hNonempty
      · exact ih hMem

theorem stop_le (h : Tiles start pieces stop) {slice : Slice} (hMem : slice ∈ pieces) :
    slice.stop ≤ stop := by
  induction h with
  | done => cases hMem
  | slice _ hRest ih =>
      rcases List.mem_cons.mp hMem with rfl | hMem
      · exact hRest.start_le
      · exact ih hMem

/-- The indices of the slices, one slice after the other, are all indices in order. -/
theorem flatMap_range' (h : Tiles start pieces stop) :
    pieces.flatMap (fun slice => List.range' slice.start slice.size) =
      List.range' start (stop - start) := by
  induction h with
  | done stop => simp
  | @slice start middle stop rest hNonempty hRest ih =>
      have hLe := hRest.start_le
      rw [List.flatMap_cons, ih]
      have hEnd : middle = start + (middle - start) := by omega
      have hSize : stop - start = (middle - start) + (stop - middle) := by omega
      rw [hSize, ← List.range'_append_1, ← hEnd, Slice.size]

/-- The values of the slices, one slice after the other, are all values in order. -/
theorem flatMap_of {α : Type} (h : Tiles start pieces stop) (values : Array α) :
    pieces.flatMap (fun slice => slice.of values) = (values.extract start stop).toList := by
  induction h with
  | done stop => simp
  | @slice start middle stop rest hNonempty hRest ih =>
      have hLe := hRest.start_le
      have hFirst : min start middle = start := by omega
      rw [List.flatMap_cons, ih, Slice.of, ← Array.toList_append, Array.extract_append_extract,
        hFirst, Nat.max_eq_right hLe]

end Tiles

/-- The slices from number `j` on, if `count` slices of `size` indices fit into `length`. -/
theorem tiles_from {length count size : Nat} (hSize : 0 < size) (hFits : count * size ≤ length)
    (left j : Nat) (hLeft : j + (left + 1) = count) :
    Tiles (j * size)
      ((List.range' j (left + 1)).map fun i =>
        ⟨i * size, if i + 1 = count then length else i * size + size⟩) length := by
  induction left generalizing j with
  | zero =>
      have hCount : count * size = j * size + size := by
        rw [← hLeft, Nat.zero_add, Nat.add_mul, Nat.one_mul]
      have hLast : j + 1 = count := by omega
      simp only [Nat.zero_add, List.range'_one, List.map_cons, List.map_nil, hLast, if_true]
      exact .slice (by omega) (.done _)
  | succ left ih =>
      have hNotLast : j + 1 ≠ count := by omega
      rw [List.range'_succ, List.map_cons, if_neg hNotLast]
      have hRest := ih (j + 1) (by omega)
      rw [Nat.add_mul, Nat.one_mul] at hRest
      exact .slice (by omega) hRest

/-- The slices for at least one worker lead from the first index to the end. -/
theorem slices_tiles (length : Nat) {workers : Nat} (hWorkers : 0 < workers) :
    Tiles 0 (slices length workers) length := by
  cases hCount : min workers length with
  | zero =>
      have hLength : length = 0 := by omega
      subst hLength
      simpa [slices] using Tiles.done 0
  | succ left =>
      have hSize : 0 < length / (left + 1) := Nat.div_pos (by omega) (by omega)
      have hFits : (left + 1) * (length / (left + 1)) ≤ length := Nat.mul_div_le length (left + 1)
      have h := tiles_from hSize hFits left 0 (by omega)
      rw [Nat.zero_mul] at h
      simpa only [slices, hCount, List.range_eq_range'] using h

/-- The slices of a list, one after the other, are the list. -/
theorem flatMap_split {α : Type} (values : List α) {workers : Nat} (hWorkers : 0 < workers) :
    (split values workers).flatMap Prod.snd = values := by
  have h := (slices_tiles values.toArray.size hWorkers).flatMap_of values.toArray
  rw [Array.extract_size] at h
  simpa only [split, List.flatMap_map] using h

/-- No slice of a list is empty. -/
theorem ne_nil_of_mem_split {α : Type} {values : List α} {workers : Nat} (hWorkers : 0 < workers)
    {part : Nat × List α} (hMem : part ∈ split values workers) : part.2 ≠ [] := by
  simp only [split, List.mem_map] at hMem
  obtain ⟨slice, hSlice, rfl⟩ := hMem
  have hTiles := slices_tiles values.toArray.size hWorkers
  have hPos := hTiles.size_pos hSlice
  have hStop := hTiles.stop_le hSlice
  intro hNil
  have hLength := congrArg List.length hNil
  simp only [Slice.size] at hPos
  simp only [Slice.of, Array.length_toList, Array.size_extract, List.length_nil] at hLength
  omega

namespace Eval

/-- A slice of a range in which no integer is too large is filled by counting up from `lower`. -/
theorem rangeSlice_eq {lower : Int64} {length : Nat}
    (hFits : lower.toInt + length ≤ Int64.maxValue.toInt + 1)
    {slice : Slice} (hStop : slice.stop ≤ length) (hNonempty : 0 < slice.size) :
    rangeSlice lower slice =
      (List.range' slice.start slice.size).map fun (k : Nat) =>
        .int (Int64.ofInt (lower.toInt + k)) := by
  have hLower := lower.minValue_le_toInt
  simp only [Slice.size] at hNonempty
  have hRange : Int64.minValue.toInt ≤ lower.toInt + slice.start ∧
      lower.toInt + slice.start ≤ Int64.maxValue.toInt := by
    constructor <;> omega
  have hFit : Integer.fit? (lower.toInt + slice.start) =
      some (Int64.ofInt (lower.toInt + slice.start)) := if_pos hRange
  have hFirst := Integer.fit?_eq_some_iff.mp hFit
  rw [rangeSlice, Integer.element?, hFit, List.range'_eq_map_range, List.map_map]
  apply List.map_congr_left
  intro k _
  rw [hFirst, Function.comp_apply, Int.natCast_add, Int.add_assoc]

/-- All slices of a range together count up from `lower`. -/
theorem flatMap_rangeSlice {lower : Int64} {length workers : Nat} (hWorkers : 0 < workers)
    (hFits : lower.toInt + length ≤ Int64.maxValue.toInt + 1) :
    (slices length workers).flatMap (rangeSlice lower) =
      (List.range length).map fun (k : Nat) => .int (Int64.ofInt (lower.toInt + k)) := by
  have hTiles := slices_tiles length hWorkers
  calc (slices length workers).flatMap (rangeSlice lower)
      = (slices length workers).flatMap (fun slice =>
          (List.range' slice.start slice.size).map fun (k : Nat) =>
            .int (Int64.ofInt (lower.toInt + k))) :=
        List.flatMap_congr fun slice hSlice =>
          rangeSlice_eq hFits (hTiles.stop_le hSlice) (hTiles.size_pos hSlice)
    _ = ((slices length workers).flatMap fun slice =>
          List.range' slice.start slice.size).map fun (k : Nat) =>
            .int (Int64.ofInt (lower.toInt + k)) := List.map_flatMap.symm
    _ = (List.range length).map fun (k : Nat) => .int (Int64.ofInt (lower.toInt + k)) := by
        rw [hTiles.flatMap_range', List.range_eq_range', Nat.sub_zero]

end Eval

end Progression
