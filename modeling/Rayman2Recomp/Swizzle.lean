import Mathlib.Data.Nat.Bitwise

namespace Swizzle

variable {k mask a n i : Nat}

/-- Flipping low bits of an index stays inside the aligned block it lies in. -/
theorem xor_div (low : mask < 2 ^ k) : (i ^^^ mask) / 2 ^ k = i / 2 ^ k := by
  rw [Nat.xor_div_two_pow, Nat.div_eq_of_lt low, Nat.xor_zero]

theorem xor_lt (low : mask < 2 ^ k) (whole : 2 ^ k ∣ n) (inside : i < n) : i ^^^ mask < n := by
  obtain ⟨blocks, rfl⟩ := whole
  have block : i / 2 ^ k < blocks := Nat.div_lt_of_lt_mul inside
  rw [← xor_div low, Nat.div_lt_iff_lt_mul (Nat.two_pow_pos k), Nat.mul_comm] at block
  exact block

theorem add_xor (low : mask < 2 ^ k) (aligned : 2 ^ k ∣ a) :
    (a + i) ^^^ mask = a + (i ^^^ mask) := by
  obtain ⟨blocks, rfl⟩ := aligned
  have positive := Nat.two_pow_pos k
  have quotient : ((2 ^ k * blocks + i) ^^^ mask) / 2 ^ k =
      (2 ^ k * blocks + (i ^^^ mask)) / 2 ^ k := by
    rw [xor_div low, Nat.mul_add_div positive, Nat.mul_add_div positive, xor_div low]
  have residue : ((2 ^ k * blocks + i) ^^^ mask) % 2 ^ k =
      (2 ^ k * blocks + (i ^^^ mask)) % 2 ^ k := by
    rw [Nat.xor_mod_two_pow, Nat.mul_add_mod, Nat.mul_add_mod, Nat.xor_mod_two_pow]
  rw [← Nat.div_add_mod ((2 ^ k * blocks + i) ^^^ mask) (2 ^ k), quotient, residue,
    Nat.div_add_mod]

theorem xor_of_aligned (low : mask < 2 ^ k) (aligned : 2 ^ k ∣ a) : a ^^^ mask = a + mask := by
  have start := add_xor (i := 0) low aligned
  rwa [Nat.add_zero, Nat.zero_xor] at start

theorem xor_eq_add_iff : a ^^^ (2 ^ k - 1) = a + (2 ^ k - 1) ↔ 2 ^ k ∣ a := by
  have positive := Nat.two_pow_pos k
  have low : 2 ^ k - 1 < 2 ^ k := by omega
  refine ⟨fun added => ?_, xor_of_aligned low⟩
  have block := xor_div low (i := a)
  rw [added] at block
  have upper := Nat.mod_lt (a + (2 ^ k - 1)) positive
  have split := Nat.div_add_mod (a + (2 ^ k - 1)) (2 ^ k)
  have start := Nat.div_add_mod a (2 ^ k)
  rw [block] at split
  exact Nat.dvd_of_mod_eq_zero (by omega)

end Swizzle
