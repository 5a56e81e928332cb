import Mathlib.Order.Lattice
import Progression.Place
import Progression.Text.Blank

/-! The order of locations, and how reading a text moves a place through it: never back, and forward
with every character that is not a line feed. -/

namespace Progression

instance : LinearOrder Location where
  le_refl a := by rw [Location.le_iff]; omega
  le_trans a b c := by simp only [Location.le_iff]; omega
  le_antisymm a b hLe hGe := by
    obtain ⟨line, column⟩ := a
    obtain ⟨otherLine, otherColumn⟩ := b
    simp only [Location.le_iff] at hLe hGe
    simp only [Location.mk.injEq]
    omega
  le_total a b := by simp only [Location.le_iff]; omega
  lt_iff_le_not_ge a b := by simp only [Location.le_iff, Location.lt_iff]; omega
  toDecidableLE := inferInstance
  toDecidableEq := inferInstance
  toDecidableLT := inferInstance

namespace Place

theorem location_le_advance (place : Place) (c : Char) :
    place.location ≤ (place.advance c).location := by
  unfold advance
  split
  · split
    · exact le_refl _
    · exact .inl (Nat.lt_succ_self _)
  · split
    · exact .inl (Nat.lt_succ_self _)
    · exact .inr ⟨rfl, Nat.le_succ _⟩

/-- Only a line feed can leave the location as it is. -/
theorem location_lt_advance (place : Place) {c : Char} (h : c ≠ '\n') :
    place.location < (place.advance c).location := by
  rw [advance, if_neg h]
  split
  · exact .inl (Nat.lt_succ_self _)
  · exact .inr ⟨rfl, Nat.lt_succ_self _⟩

theorem location_le_after (place : Place) (cs : List Char) :
    place.location ≤ (place.after cs).location := by
  induction cs generalizing place with
  | nil => exact le_refl _
  | cons c cs ih => exact (place.location_le_advance c).trans (ih _)

/-- A text that does not begin with a blank takes up room. -/
theorem location_lt_after (place : Place) {c : Char} (h : Text.isBlank c = false)
    (cs : List Char) : place.location < (place.after (c :: cs)).location := by
  have hFeed : c ≠ '\n' := by
    rintro rfl
    exact absurd h (by decide)
  exact (place.location_lt_advance hFeed).trans_le (location_le_after _ cs)

end Place

end Progression
