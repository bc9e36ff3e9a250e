import Mathlib.Data.List.Basic

namespace Raster

variable {α : Type} {row : Nat → List α} {width : Nat}

/-- Rows laid end to end, from the first one down. -/
def raster (height : Nat) (row : Nat → List α) : List α := (List.range height).flatMap row

theorem raster_succ (height : Nat) (row : Nat → List α) :
    raster (height + 1) row = raster height row ++ row height := by
  rw [raster, List.range_succ, List.flatMap_append, List.flatMap_singleton]
  rfl

theorem length_raster (uniform : ∀ y, (row y).length = width) (height : Nat) :
    (raster height row).length = height * width := by
  induction height with
  | zero => simp [raster]
  | succ height ih => rw [raster_succ, List.length_append, ih, uniform, Nat.add_one_mul]

theorem raster_getElem? (uniform : ∀ y, (row y).length = width) {height x y : Nat}
    (down : y < height) (across : x < width) :
    (raster height row)[y * width + x]? = (row y)[x]? := by
  induction height with
  | zero => omega
  | succ height ih =>
    have rows := length_raster uniform height
    rw [raster_succ]
    by_cases earlier : y < height
    · have next : (y + 1) * width ≤ height * width := Nat.mul_le_mul_right width earlier
      rw [Nat.add_one_mul] at next
      rw [List.getElem?_append_left (by omega)]
      exact ih earlier
    · have last : y = height := by omega
      subst last
      rw [List.getElem?_append_right (by omega), rows, Nat.add_sub_cancel_left]

end Raster
