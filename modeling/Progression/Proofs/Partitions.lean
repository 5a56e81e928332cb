import Mathlib.Data.List.Chain
import Progression.Proofs.Slices

/-! How slices share out work. There are as many as there are workers or, if these are more, indices;
they follow each other from the first index to the last, and what is left over goes to the last of them.
Whatever is computed on the way to a slice lies within the length, so a word can hold it. -/

namespace Progression

/-- The slices share out the indices below `length` among the workers. -/
structure Partitions (length workers : Nat) (pieces : List Slice) : Prop where
  count : pieces.length = min length workers
  nonempty : ∀ piece ∈ pieces, piece.start < piece.stop
  first : ∀ piece ∈ pieces.head?, piece.start = 0
  adjacent : pieces.IsChain fun piece next => next.start = piece.stop
  last : ∀ piece ∈ pieces.getLast?, piece.stop = length
  equal : ∀ piece ∈ pieces.dropLast, piece.size = length / pieces.length
  remainder : ∀ piece ∈ pieces.getLast?, piece.size < length / pieces.length + pieces.length

/-- Cuts a list along slices, from the front: every slice takes as many values as it has indices off
what is left. -/
def cut {α : Type} (values : List α) : List Slice → List (Nat × List α)
  | [] => []
  | piece :: rest =>
      (piece.start, values.take piece.size) :: cut (values.drop piece.size) rest

namespace Tiles

variable {start stop : Nat} {pieces : List Slice}

theorem start_lt_stop (h : Tiles start pieces stop) : ∀ piece ∈ pieces, piece.start < piece.stop :=
  fun _ hMem => Nat.lt_of_sub_pos (h.size_pos hMem)

theorem head_start (h : Tiles start pieces stop) : ∀ piece ∈ pieces.head?, piece.start = start := by
  cases h with
  | done => simp
  | slice => simp

theorem isChain (h : Tiles start pieces stop) :
    pieces.IsChain fun piece next => next.start = piece.stop := by
  induction h with
  | done => exact .nil
  | slice _ hRest ih => exact List.isChain_cons.mpr ⟨hRest.head_start, ih⟩

theorem getLast_stop (h : Tiles start pieces stop) :
    ∀ piece ∈ pieces.getLast?, piece.stop = stop := by
  induction h with
  | done => simp
  | slice _ hRest ih =>
      cases hRest with
      | done => simp
      | slice => simpa [List.getLast?_cons] using ih

/-- Cutting along the slices gives the values that they hold. -/
theorem cut_drop {α : Type} (h : Tiles start pieces stop) (values : List α) :
    cut (values.drop start) pieces =
      pieces.map fun piece => (piece.start, piece.of values.toArray) := by
  induction h with
  | done => rfl
  | @slice start middle stop rest hNonempty hRest ih =>
      have hMiddle : start + (middle - start) = middle := by omega
      rw [cut, Slice.size, List.drop_drop, hMiddle, ih, List.map_cons]
      simp [Slice.of, List.extract_eq_take_drop]

/-- A slice begins where the values of the slices before it end. -/
theorem start_eq_length {α : Type} (h : Tiles start pieces stop) {values : Array α}
    (hStop : stop ≤ values.size) {before after : List Slice} {piece : Slice}
    (hPieces : pieces = before ++ piece :: after) :
    piece.start = start + (before.flatMap fun earlier => earlier.of values).length := by
  induction h generalizing before with
  | done => simp at hPieces
  | @slice start middle stop rest hNonempty hRest ih =>
      cases before with
      | nil =>
          obtain ⟨rfl, -⟩ := List.cons.inj hPieces
          rfl
      | cons earlier before =>
          obtain ⟨hEarlier, hLater⟩ := List.cons.inj hPieces
          have hLe := hRest.start_le
          rw [ih hStop hLater, ← hEarlier]
          simp only [List.flatMap_cons, List.length_append, Slice.of, Array.length_toList,
            Array.size_extract]
          omega

end Tiles

theorem length_slices (length workers : Nat) :
    (slices length workers).length = min length workers := by
  simp [slices, Nat.min_comm]

/-- All slices but the last are alike, and the last ends with the length. -/
theorem slices_eq_concat {length workers left : Nat} (h : min workers length = left + 1) :
    slices length workers =
      (List.range left).map (fun j =>
        ⟨j * (length / (left + 1)), j * (length / (left + 1)) + length / (left + 1)⟩) ++
        [⟨left * (length / (left + 1)), length⟩] := by
  simp only [slices, h, List.range_succ, List.map_append, List.map_cons, List.map_nil, if_true]
  congr 1
  refine List.map_congr_left fun j hMem => ?_
  have hEarlier : j + 1 ≠ left + 1 := by
    have := List.mem_range.mp hMem
    omega
  rw [if_neg hEarlier]

/-- What is left over is less than the number of slices. -/
theorem last_share_lt (length left : Nat) :
    length - left * (length / (left + 1)) < length / (left + 1) + (left + 1) := by
  have hDivision : (left + 1) * (length / (left + 1)) + length % (left + 1) = length :=
    Nat.div_add_mod length (left + 1)
  have hRest : length % (left + 1) < left + 1 := Nat.mod_lt length (Nat.succ_pos left)
  rw [Nat.succ_mul] at hDivision
  generalize length / (left + 1) = size at hDivision ⊢
  omega

theorem partitions_slices (length workers : Nat) :
    Partitions length workers (slices length workers) := by
  cases hCount : min workers length with
  | zero =>
      have hNil : slices length workers = [] := by simp [slices, hCount]
      have hNone : 0 = min length workers := by omega
      rw [hNil]
      exact ⟨hNone, by simp, by simp, .nil, by simp, by simp, by simp⟩
  | succ left =>
      have hPos : 0 < workers := by omega
      have hTiles := slices_tiles length hPos
      have hLength : (slices length workers).length = left + 1 := by
        rw [length_slices, Nat.min_comm, hCount]
      refine ⟨length_slices length workers, hTiles.start_lt_stop, hTiles.head_start, hTiles.isChain,
        hTiles.getLast_stop, fun piece hMem => ?_, fun piece hMem => ?_⟩
      · rw [slices_eq_concat hCount, List.dropLast_concat] at hMem
        obtain ⟨j, -, rfl⟩ := List.mem_map.mp hMem
        rw [hLength, Slice.size, Nat.add_sub_cancel_left]
      · rw [slices_eq_concat hCount, List.getLast?_concat, Option.mem_some_iff] at hMem
        subst hMem
        rw [hLength]
        exact last_share_lt length left

namespace Word

/-- The product of two words, unless it overflows. -/
def product? (a b : UInt64) : Option UInt64 :=
  if a.toNat * b.toNat < UInt64.size then some (a * b) else none

/-- The sum of two words, unless it overflows. -/
def sum? (a b : UInt64) : Option UInt64 :=
  if a.toNat + b.toNat < UInt64.size then some (a + b) else none

theorem product?_of_lt {a b : UInt64} (h : a.toNat * b.toNat < UInt64.size) :
    ∃ c, product? a b = some c ∧ c.toNat = a.toNat * b.toNat :=
  ⟨a * b, if_pos h, by rw [UInt64.toNat_mul]; exact Nat.mod_eq_of_lt h⟩

theorem sum?_of_lt {a b : UInt64} (h : a.toNat + b.toNat < UInt64.size) :
    ∃ c, sum? a b = some c ∧ c.toNat = a.toNat + b.toNat :=
  ⟨a + b, if_pos h, by rw [UInt64.toNat_add]; exact Nat.mod_eq_of_lt h⟩

end Word

/-- Slice number `j` of `count`, computed in words, unless a product or a sum overflows. -/
def Slice.inWords? (length count j : UInt64) : Option Slice := do
  let start ← Word.product? j (length / count)
  let next ← Word.sum? j 1
  if next = count then pure ⟨start.toNat, length.toNat⟩
  else
    let stop ← Word.sum? start (length / count)
    pure ⟨start.toNat, stop.toNat⟩

/-- The slices of the indices below `length`, computed in words, unless a product or a sum
overflows. -/
def slicesInWords? (length workers : UInt64) : Option (List Slice) :=
  let count := if workers ≤ length then workers else length
  if count = 0 then some []
  else (List.range count.toNat).mapM fun j => Slice.inWords? length count (UInt64.ofNat j)

/-- No product and no sum goes beyond the length. -/
theorem Slice.inWords?_eq {length count j : UInt64} (hj : j.toNat < count.toNat)
    (hCount : count.toNat ≤ length.toNat) :
    inWords? length count j =
      some ⟨j.toNat * (length.toNat / count.toNat),
        if j.toNat + 1 = count.toNat then length.toNat
        else j.toNat * (length.toNat / count.toNat) + length.toNat / count.toNat⟩ := by
  have hSize : (length / count).toNat = length.toNat / count.toNat := UInt64.toNat_div length count
  have hLength := length.toNat_lt_size
  have hWithin : j.toNat * (length.toNat / count.toNat) + length.toNat / count.toNat ≤
      length.toNat :=
    calc j.toNat * (length.toNat / count.toNat) + length.toNat / count.toNat
        = (j.toNat + 1) * (length.toNat / count.toNat) := (Nat.succ_mul _ _).symm
      _ ≤ count.toNat * (length.toNat / count.toNat) := Nat.mul_le_mul_right _ hj
      _ ≤ length.toNat := Nat.mul_div_le length.toNat count.toNat
  obtain ⟨start, hStart, hStartNat⟩ :=
    Word.product?_of_lt (a := j) (b := length / count) (by rw [hSize]; omega)
  obtain ⟨next, hNext, hNextNat⟩ :=
    Word.sum?_of_lt (a := j) (b := 1) (by rw [UInt64.toNat_one]; omega)
  obtain ⟨stop, hStop, hStopNat⟩ :=
    Word.sum?_of_lt (a := start) (b := length / count) (by rw [hStartNat, hSize]; omega)
  rw [UInt64.toNat_one] at hNextNat
  rw [hSize] at hStartNat hStopNat
  simp only [inWords?, hStart, hNext, hStop, Option.bind_eq_bind, Option.bind_some, Option.pure_def,
    ← UInt64.toNat_inj, hNextNat, hStartNat, hStopNat]
  split <;> rfl

theorem mapM_eq_some_map {α β : Type} {f : α → Option β} {g : α → β} {items : List α}
    (h : ∀ item ∈ items, f item = some (g item)) : items.mapM f = some (items.map g) := by
  induction items with
  | nil => rfl
  | cons item items ih =>
      rw [List.mapM_cons, h item List.mem_cons_self,
        ih fun other hMem => h other (List.mem_cons_of_mem item hMem)]
      rfl

theorem slicesInWords?_eq (length workers : UInt64) :
    slicesInWords? length workers = some (slices length.toNat workers.toNat) := by
  have hCount : (if workers ≤ length then workers else length).toNat =
      min workers.toNat length.toNat := by
    split
    · next hLe => exact (Nat.min_eq_left (UInt64.le_iff_toNat_le.mp hLe)).symm
    · next hGt => exact (Nat.min_eq_right (Nat.le_of_lt (UInt64.not_le.mp hGt))).symm
  unfold slicesInWords? slices
  rw [← hCount]
  generalize hWord : (if workers ≤ length then workers else length) = count at hCount ⊢
  by_cases hZero : count = 0
  · simp [hZero]
  · simp only [hZero, if_false]
    refine mapM_eq_some_map fun j hMem => ?_
    have hj : j < count.toNat := List.mem_range.mp hMem
    have hWord : (UInt64.ofNat j).toNat = j :=
      UInt64.toNat_ofNat_of_lt' (hj.trans count.toNat_lt_size)
    rw [Slice.inWords?_eq (by rw [hWord]; exact hj) (by omega), hWord]

/-- Slices partition the work. For all lengths and numbers of workers that words can hold they share
out the indices as they should, and they can be computed in words without an overflow. For at least one
worker the slices of a list are its parts in order, none of them empty; each is paired with the index of
its first value, and they are cut off the front of the list one after the other. -/
theorem slices_partition :
    (∀ length workers : UInt64,
      Partitions length.toNat workers.toNat (slices length.toNat workers.toNat) ∧
        slicesInWords? length workers = some (slices length.toNat workers.toNat)) ∧
    ∀ (α : Type) (values : List α) (workers : Nat), 1 ≤ workers →
      (split values workers).flatMap Prod.snd = values ∧
      (∀ (before after : List (Nat × List α)) (start : Nat) (part : List α),
        split values workers = before ++ (start, part) :: after →
          part ≠ [] ∧ start = (before.flatMap Prod.snd).length) ∧
      split values workers = cut values (slices values.length workers) := by
  refine ⟨fun length workers => ⟨partitions_slices _ _, slicesInWords?_eq length workers⟩, ?_⟩
  intro α values workers hWorkers
  have hTiles := slices_tiles values.toArray.size hWorkers
  refine ⟨flatMap_split values hWorkers, fun before after start part hSplit => ⟨?_, ?_⟩, ?_⟩
  · have hMem : (start, part) ∈ split values workers := by rw [hSplit]; simp
    exact ne_nil_of_mem_split hWorkers hMem
  · obtain ⟨earlier, rest, hPieces, rfl, hRest⟩ := List.map_eq_append_iff.mp hSplit
    obtain ⟨piece, later, rfl, hPiece, -⟩ := List.map_eq_cons_iff.mp hRest
    obtain ⟨rfl, -⟩ := Prod.mk.inj hPiece
    have hStart := hTiles.start_eq_length (Nat.le_refl _) hPieces
    rw [hStart, Nat.zero_add, List.flatMap_map]
  · exact (hTiles.cut_drop values).symm

/-- The indices below the greatest word, for two workers, and three values in two slices. -/
theorem slices_partition_odd :
    slices 18446744073709551615 2 =
      [⟨0, 9223372036854775807⟩, ⟨9223372036854775807, 18446744073709551615⟩] ∧
    Partitions 18446744073709551615 2 (slices 18446744073709551615 2) ∧
    slicesInWords? 18446744073709551615 2 = some (slices 18446744073709551615 2) ∧
    split ['a', 'b', 'c'] 2 = [(0, ['a'])] ++ (1, ['b', 'c']) :: [] ∧
    ['b', 'c'] ≠ [] ∧ 1 = ([(0, ['a'])].flatMap Prod.snd).length := by
  have hSplit : split ['a', 'b', 'c'] 2 = [(0, ['a'])] ++ (1, ['b', 'c']) :: [] := by decide
  obtain ⟨hPartitions, hWords⟩ := slices_partition.1 18446744073709551615 2
  exact ⟨by decide, hPartitions, hWords, hSplit,
    (slices_partition.2 Char ['a', 'b', 'c'] 2 (by decide)).2.1 _ _ _ _ hSplit⟩

end Progression
