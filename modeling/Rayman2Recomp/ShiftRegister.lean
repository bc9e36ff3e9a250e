import Mathlib.Algebra.CharP.Two
import Mathlib.Algebra.Polynomial.Div
import Mathlib.Algebra.Polynomial.RingDivision
import Mathlib.RingTheory.Coprime.Lemmas

open Polynomial

namespace ShiftRegister

variable {R : Type*} [CommRing R] {G : R[X]} {c : Nat → R} {n k : Nat}

/-- The first `n` of a run of coefficients, that of the highest power first. -/
noncomputable def stream (c : Nat → R) (n : Nat) : R[X] :=
  ∑ i ∈ Finset.range n, C (c i) * X ^ (n - 1 - i)

/-- One more coefficient through a register that keeps the remainder of all so far. -/
noncomputable def shiftIn (G r : R[X]) (next : R) : R[X] :=
  (r * X + C next) %ₘ G

theorem stream_zero : stream c 0 = 0 := Finset.sum_range_zero _

theorem stream_succ : stream c (n + 1) = stream c n * X + C (c n) := by
  have shifted : ∀ i ∈ Finset.range n,
      C (c i) * X ^ (n + 1 - 1 - i) = C (c i) * X ^ (n - 1 - i) * X := by
    intro i hi
    have hin : n + 1 - 1 - i = n - 1 - i + 1 := by
      have := Finset.mem_range.mp hi
      omega
    rw [hin, pow_succ, mul_assoc]
  have last : n + 1 - 1 - n = 0 := by omega
  unfold stream
  rw [Finset.sum_range_succ, Finset.sum_mul, Finset.sum_congr rfl shifted, last, pow_zero, mul_one]

/-- Coefficients that are nothing multiply by a power of `X`. -/
theorem stream_append_zeros (zeros : ∀ i, n ≤ i → i < n + k → c i = 0) :
    stream c (n + k) = stream c n * X ^ k := by
  induction k with
  | zero => simp
  | succ k ih =>
    have before := ih fun i low high => zeros i low (by omega)
    have last := zeros (n + k) (by omega) (by omega)
    rw [← Nat.add_assoc, stream_succ, before, last, C_0, add_zero, pow_succ, mul_assoc]

theorem stream_sub (c e : Nat → R) (n : Nat) :
    stream (fun i => c i - e i) n = stream c n - stream e n := by
  unfold stream
  rw [← Finset.sum_sub_distrib]
  refine Finset.sum_congr rfl fun i _ => ?_
  rw [C_sub, sub_mul]

theorem coeff_stream (inside : k < n) : (stream c n).coeff (n - 1 - k) = c k := by
  unfold stream
  rw [finsetSum_coeff, Finset.sum_eq_single k]
  · rw [coeff_C_mul_X_pow, if_pos rfl]
  · intro i hi other
    have := Finset.mem_range.mp hi
    rw [coeff_C_mul_X_pow, if_neg (by omega)]
  · intro outside
    exact absurd (Finset.mem_range.mpr inside) outside

theorem shiftIn_modByMonic (monic : G.Monic) (r : R[X]) (next : R) :
    shiftIn G (r %ₘ G) next = (r * X + C next) %ₘ G := by
  unfold shiftIn
  refine modByMonic_eq_of_dvd_sub monic ?_
  have same : r %ₘ G * X + C next - (r * X + C next) = (r %ₘ G - r) * X := by ring
  rw [same]
  exact (dvd_modByMonic_sub r G).mul_right X

/-- Any register whose step shifts a coefficient in holds the remainder of what went through. -/
theorem register_run {σ : Type*} (word : σ → R[X]) (step : σ → Nat → σ) (start : σ)
    (monic : G.Monic) (empty : word start = 0)
    (shifts : ∀ s i, word (step s i) = shiftIn G (word s) (c i)) (n : Nat) :
    word ((List.range n).foldl step start) = stream c n %ₘ G := by
  induction n with
  | zero => rw [List.range_zero, List.foldl_nil, empty, stream_zero, zero_modByMonic]
  | succ n ih =>
    rw [List.range_succ, List.foldl_append, List.foldl_cons, List.foldl_nil, shifts, ih,
      shiftIn_modByMonic monic, stream_succ]

theorem same_remainder_iff (monic : G.Monic) (p q : R[X]) : p %ₘ G = q %ₘ G ↔ G ∣ p - q := by
  rw [← modByMonic_eq_zero_iff_dvd monic, sub_modByMonic, sub_eq_zero]

/-- A modulus that has the root one divides no stream whose coefficients do not cancel. -/
theorem sum_eq_zero_of_dvd (root : G.eval 1 = 0) (divides : G ∣ stream c n * X ^ k) :
    ∑ i ∈ Finset.range n, c i = 0 := by
  obtain ⟨quotient, product⟩ := divides
  have value := congrArg (eval 1) product
  rw [eval_mul, eval_mul, root, zero_mul, eval_pow, eval_X, one_pow, mul_one] at value
  rw [← value, stream, eval_finsetSum]
  refine Finset.sum_congr rfl fun i _ => ?_
  simp

theorem degree_stream_lt (low width : Nat) (before : ∀ i, i < n → i < low → c i = 0)
    (short : n ≤ low + width) : (stream c n).degree < width := by
  unfold stream
  refine (degree_sum_le _ _).trans_lt ((Finset.sup_lt_iff (WithBot.bot_lt_coe width)).mpr ?_)
  intro i hi
  have inside := Finset.mem_range.mp hi
  by_cases h : i < low
  · rw [before i inside h, C_0, zero_mul, degree_zero]
    exact WithBot.bot_lt_coe width
  · refine (degree_C_mul_X_pow_le _ _).trans_lt ?_
    exact Nat.cast_lt.mpr (by omega)

/-- A modulus coprime to `X` divides no stream confined to as many positions as its degree,
except that of nothing. -/
theorem burst_eq_zero_of_dvd [Nontrivial R] {low width : Nat} (monic : G.Monic)
    (wide : G.natDegree = width) (coprime : IsCoprime G X)
    (burst : ∀ i, i < n → c i ≠ 0 → low ≤ i ∧ i < low + width)
    (divides : G ∣ stream c n * X ^ k) : ∀ i, i < n → c i = 0 := by
  let high := min n (low + width)
  have whole : high + (n - high) = n := by omega
  have tail : stream c (high + (n - high)) = stream c high * X ^ (n - high) := by
    refine stream_append_zeros fun i above below => ?_
    by_contra set
    have := burst i (by omega) set
    omega
  rw [whole] at tail
  rw [tail, mul_assoc, ← pow_add] at divides
  have core := (coprime.pow_right).dvd_of_dvd_mul_right divides
  have small : (stream c high).degree < G.degree := by
    rw [degree_eq_natDegree monic.ne_zero, wide]
    refine degree_stream_lt low width (fun i inside below => ?_) (by omega)
    by_contra set
    have := burst i (by omega) set
    omega
  have nothing : stream c high = 0 := by
    by_contra nonzero
    exact monic.not_dvd_of_degree_lt nonzero small core
  intro i inside
  by_contra set
  have place := burst i inside set
  have coefficient : (stream c high).coeff (high - 1 - i) = c i := coeff_stream (by omega)
  rw [nothing, coeff_zero] at coefficient
  exact set coefficient.symm

end ShiftRegister
