import Mathlib.Algebra.Order.Field.Basic
import Mathlib.Algebra.Order.Floor.Ring
import Mathlib.Tactic.Linarith

namespace Truncation

variable {K : Type*} [Field K] [LinearOrder K] [FloorRing K] {x c k : K}

/-- The integer part of a number, rounded towards zero. -/
def truncate (x : K) : Int := if 0 ≤ x then ⌊x⌋ else ⌈x⌉

theorem truncate_of_nonneg (nonneg : 0 ≤ x) : truncate x = ⌊x⌋ := if_pos nonneg

theorem truncate_of_neg (negative : x < 0) : truncate x = ⌈x⌉ := if_neg (not_le.mpr negative)

variable [IsStrictOrderedRing K]

omit [IsStrictOrderedRing K] in
/-- What lies strictly between two opposite integers still does when truncated. -/
theorem truncate_between {n : Int} (positive : 0 < n) (low : -(n : K) < x) (high : x < n) :
    -n < truncate x ∧ truncate x < n := by
  by_cases nonneg : 0 ≤ x
  · rw [truncate_of_nonneg nonneg]
    have above : 0 ≤ ⌊x⌋ := Int.floor_nonneg.mpr nonneg
    have below : ⌊x⌋ < n := Int.floor_lt.mpr high
    omega
  · have negative := not_le.mp nonneg
    rw [truncate_of_neg negative]
    have above : -n < ⌈x⌉ := by
      rw [Int.lt_ceil, Int.cast_neg]
      exact low
    have below : ⌈x⌉ ≤ 0 := by
      rw [Int.ceil_le, Int.cast_zero]
      exact le_of_lt negative
    omega

/-- A number divided by a factor, truncated, multiplied again and truncated is short of the number
truncated by no more than the factor. -/
theorem truncate_round_trip (nonneg : 0 ≤ c) (grows : 1 ≤ k) :
    0 ≤ truncate c - truncate ((truncate (c / k) : K) * k) ∧
      truncate c - truncate ((truncate (c / k) : K) * k) ≤ ⌈k⌉ := by
  have positive : 0 < k := lt_of_lt_of_le one_pos grows
  have quotient : 0 ≤ c / k := div_nonneg nonneg (le_of_lt positive)
  rw [truncate_of_nonneg quotient, truncate_of_nonneg nonneg]
  have floored : 0 ≤ (⌊c / k⌋ : K) := by
    have := Int.floor_nonneg.mpr quotient
    exact_mod_cast this
  have restored : 0 ≤ (⌊c / k⌋ : K) * k := mul_nonneg floored (le_of_lt positive)
  rw [truncate_of_nonneg restored]
  have above : (⌊c / k⌋ : K) * k ≤ c := (le_div_iff₀ positive).mp (Int.floor_le _)
  have below : c < ((⌊c / k⌋ : K) + 1) * k := (div_lt_iff₀ positive).mp (Int.lt_floor_add_one _)
  constructor
  · have := Int.floor_le_floor above
    omega
  · have start := Int.floor_le c
    have stop := Int.lt_floor_add_one ((⌊c / k⌋ : K) * k)
    have short : ((⌊c⌋ - ⌊(⌊c / k⌋ : K) * k⌋ : Int) : K) < ((⌈k⌉ + 1 : Int) : K) := by
      have ceiling := Int.le_ceil k
      push_cast
      linarith
    have := Int.cast_lt.mp short
    omega

end Truncation
