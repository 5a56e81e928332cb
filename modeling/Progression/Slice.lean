/-! Slices of work. The indices of a sequence are cut into contiguous slices, one per worker as far
as there are enough of them. All slices have the same size except the last, which also takes what
is left over. -/

namespace Progression

/-- The indices from `start` up to, and not including, `stop`. -/
structure Slice where
  start : Nat
  stop : Nat
deriving DecidableEq

namespace Slice

/-- How many indices the slice holds. -/
def size (slice : Slice) : Nat := slice.stop - slice.start

/-- The part of the values that the slice holds. -/
def of {α : Type} (slice : Slice) (values : Array α) : List α :=
  (values.extract slice.start slice.stop).toList

end Slice

/-- The slices of the indices below `length` for a number of workers. -/
def slices (length workers : Nat) : List Slice :=
  let count := min workers length
  let size := length / count
  (List.range count).map fun j =>
    ⟨j * size, if j + 1 = count then length else j * size + size⟩

/-- The slices of a list of values, each with the index of its first value. -/
def split {α : Type} (values : List α) (workers : Nat) : List (Nat × List α) :=
  let all := values.toArray
  (slices all.size workers).map fun slice => (slice.start, slice.of all)

end Progression
