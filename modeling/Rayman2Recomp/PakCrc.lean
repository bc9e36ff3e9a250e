import Rayman2Recomp.ShiftRegister
import Rayman2Recomp.SiPak
import Mathlib.Algebra.Field.ZMod
import Mathlib.Tactic.ComputeDegree
import Mathlib.Tactic.IntervalCases
import Mathlib.Tactic.LinearCombination

open Polynomial ShiftRegister

namespace Rayman2Recomp

/-- One bit of a byte as a coefficient over the field of two elements. -/
def byteBit (b : UInt8) (i : Nat) : ZMod 2 :=
  if b.toBitVec.getLsbD i then 1 else 0

/-- Bit `p` of a block, the most significant of its first byte first. -/
def blockBit (d : Block) (p : Nat) : ZMod 2 :=
  if h : p / 8 < kBlockSize then byteBit (d ⟨p / 8, h⟩) (7 - p % 8) else 0

noncomputable def bytePoly (b : UInt8) : (ZMod 2)[X] :=
  stream (fun i => byteBit b (7 - i)) 8

noncomputable def blockPoly (d : Block) : (ZMod 2)[X] :=
  stream (blockBit d) 256

noncomputable def crcModulus : (ZMod 2)[X] := X ^ 8 + X ^ 7 + X ^ 2 + 1

def blockXor (d e : Block) : Block := fun i => d i ^^^ e i

/-- The positions of the one bits of a block. -/
def oneBits (d : Block) : Finset Nat := {p ∈ Finset.range 256 | blockBit d p = 1}

theorem crcModulus_degree : crcModulus.natDegree = 8 := by
  unfold crcModulus
  compute_degree!

theorem crcModulus_monic : crcModulus.Monic := by
  unfold crcModulus
  monicity!

theorem crcModulus_coprime : IsCoprime crcModulus X := by
  refine ⟨1, -(X ^ 7 + X ^ 6 + X), ?_⟩
  unfold crcModulus
  ring

theorem crcModulus_root : crcModulus.eval 1 = 0 := by
  simp only [crcModulus, eval_add, eval_pow, eval_X, eval_one]
  decide

theorem byteBit_xor (a b : UInt8) (i : Nat) : byteBit (a ^^^ b) i = byteBit a i + byteBit b i := by
  simp only [byteBit, UInt8.toBitVec_xor, BitVec.getLsbD_xor]
  cases a.toBitVec.getLsbD i <;> cases b.toBitVec.getLsbD i <;> decide

theorem byteBit_zero (i : Nat) : byteBit 0 i = 0 := by
  simp [byteBit]

/-- The register moves up by one, and the bit that comes in is its lowest. -/
theorem byteBit_shift (crc : UInt8) {bit : UInt8} (single : bit = 0 ∨ bit = 1) {i : Nat}
    (inside : i < 8) :
    byteBit ((crc <<< 1) ||| bit) i = if i = 0 then byteBit bit 0 else byteBit crc (i - 1) := by
  simp only [byteBit, UInt8.toBitVec_or, UInt8.toBitVec_shiftLeft, BitVec.getLsbD_or]
  obtain rfl | rfl := single <;> interval_cases i <;> simp

theorem feedback_iff (crc : UInt8) : crc &&& 0x80 ≠ 0 ↔ crc.toBitVec.getLsbD 7 = true := by
  have masked : (crc &&& 0x80).toBitVec = crc.toBitVec &&& BitVec.twoPow 8 7 := rfl
  rw [ne_eq, ← UInt8.toBitVec_inj, masked, BitVec.and_twoPow]
  cases crc.toBitVec.getLsbD 7 <;> decide

theorem byteBit_feedback (crc : UInt8) (i : Nat) :
    byteBit (if crc &&& 0x80 ≠ 0 then 0x85 else 0x00) i = byteBit crc 7 * byteBit 0x85 i := by
  by_cases h : crc.toBitVec.getLsbD 7 = true
  · rw [if_pos ((feedback_iff crc).mpr h)]
    simp [byteBit, h]
  · rw [if_neg (mt (feedback_iff crc).mp h), byteBit_zero]
    have clear : byteBit crc 7 = 0 := if_neg h
    rw [clear, zero_mul]

theorem byteBit_crcStep (crc : UInt8) {bit : UInt8} (single : bit = 0 ∨ bit = 1) {i : Nat}
    (inside : i < 8) :
    byteBit (crcStep crc bit) i =
      (if i = 0 then byteBit bit 0 else byteBit crc (i - 1)) + byteBit crc 7 * byteBit 0x85 i := by
  rw [crcStep, byteBit_xor, byteBit_shift crc single inside, byteBit_feedback]

theorem bytePoly_eq (b : UInt8) :
    bytePoly b = C (byteBit b 7) * X ^ 7 + C (byteBit b 6) * X ^ 6 + C (byteBit b 5) * X ^ 5 +
      C (byteBit b 4) * X ^ 4 + C (byteBit b 3) * X ^ 3 + C (byteBit b 2) * X ^ 2 +
      C (byteBit b 1) * X + C (byteBit b 0) := by
  simp [bytePoly, stream, Finset.sum_range_succ]

theorem bytePoly_degree (b : UInt8) : (bytePoly b).degree < crcModulus.degree := by
  rw [degree_eq_natDegree crcModulus_monic.ne_zero, crcModulus_degree]
  exact degree_stream_lt 0 8 (fun i _ before => absurd before (by omega)) (by omega)

/-- A step is one coefficient shifted into the remainder: what the feedback takes off is the
modulus, as often as the bit that falls out of the register says. -/
theorem bytePoly_crcStep (crc : UInt8) {bit : UInt8} (single : bit = 0 ∨ bit = 1) :
    bytePoly (crcStep crc bit) = shiftIn crcModulus (bytePoly crc) (byteBit bit 0) := by
  have two : (2 : (ZMod 2)[X]) = 0 := CharTwo.two_eq_zero
  have quotient : bytePoly (crcStep crc bit) + crcModulus * C (byteBit crc 7) =
      bytePoly crc * X + C (byteBit bit 0) := by
    rw [bytePoly_eq (crcStep crc bit), bytePoly_eq crc]
    have taps : byteBit 0x85 0 = 1 ∧ byteBit 0x85 1 = 0 ∧ byteBit 0x85 2 = 1 ∧
        byteBit 0x85 3 = 0 ∧ byteBit 0x85 4 = 0 ∧ byteBit 0x85 5 = 0 ∧ byteBit 0x85 6 = 0 ∧
        byteBit 0x85 7 = 1 := by decide
    obtain ⟨t0, t1, t2, t3, t4, t5, t6, t7⟩ := taps
    simp (disch := decide) only [byteBit_crcStep crc single, t0, t1, t2, t3, t4, t5, t6, t7,
      crcModulus, C_add, OfNat.ofNat_ne_zero, one_ne_zero, ↓reduceIte, mul_zero, mul_one, add_zero,
      Nat.reduceSub]
    linear_combination (C (byteBit crc 7) * (X ^ 7 + X ^ 2 + 1)) * two
  exact ((div_modByMonic_unique _ _ crcModulus_monic ⟨quotient, bytePoly_degree _⟩).2).symm

/-- What goes through the register at each of its 264 steps. -/
def streamBit (data : Block) (i : Nat) (bit : UInt8) : UInt8 :=
  if h : i < kBlockSize then (data ⟨i, h⟩ >>> bit) &&& 1 else 0

theorem and_one (b : UInt8) : b &&& 1 = 0 ∨ b &&& 1 = 1 := by
  have bounded : (b &&& 1).toNat < 2 := by
    rw [UInt8.toNat_and]
    exact Nat.and_lt_two_pow _ (by decide : (1 : UInt8).toNat < 2 ^ 1)
  obtain zero | one : (b &&& 1).toNat = 0 ∨ (b &&& 1).toNat = 1 := by omega
  · exact .inl (UInt8.toNat_inj.mp zero)
  · exact .inr (UInt8.toNat_inj.mp one)

theorem streamBit_single (data : Block) (i : Nat) (bit : UInt8) :
    streamBit data i bit = 0 ∨ streamBit data i bit = 1 := by
  unfold streamBit
  split
  · exact and_one _
  · exact .inl rfl

theorem byteBit_shiftRight (b : UInt8) {k : Nat} (inside : k < 8) :
    byteBit ((b >>> UInt8.ofNat k) &&& 1) 0 = byteBit b k := by
  simp only [byteBit, UInt8.toBitVec_and, UInt8.toBitVec_shiftRight, BitVec.getLsbD_and]
  interval_cases k <;> simp

theorem byteBit_streamBit (data : Block) (p : Nat) :
    byteBit (streamBit data (p / 8) (UInt8.ofNat (7 - p % 8))) 0 = blockBit data p := by
  unfold streamBit blockBit
  split
  · exact byteBit_shiftRight _ (by omega)
  · exact byteBit_zero 0

/-- Bytes one after another, each from its highest bit down, are one run of bits. -/
theorem foldl_bytes {σ : Type} (f : σ → Nat → UInt8 → σ) (start : σ) (n : Nat) :
    (List.range n).foldl (fun s i =>
        ([7, 6, 5, 4, 3, 2, 1, 0] : List UInt8).foldl (fun s bit => f s i bit) s) start =
      (List.range (8 * n)).foldl (fun s p => f s (p / 8) (UInt8.ofNat (7 - p % 8))) start := by
  induction n with
  | zero => rfl
  | succ n ih =>
    have bits : List.range (8 * (n + 1)) = List.range (8 * n) ++ (List.range 8).map (8 * n + ·) := by
      rw [Nat.mul_succ, List.range_add]
    rw [List.range_succ, List.foldl_append, ih, bits, List.foldl_append, List.foldl_map]
    have inside : ∀ s, ∀ k ∈ List.range 8,
        f s ((8 * n + k) / 8) (UInt8.ofNat (7 - (8 * n + k) % 8)) = f s n (UInt8.ofNat (7 - k)) := by
      intro s k hk
      have := List.mem_range.mp hk
      rw [show (8 * n + k) / 8 = n by omega, show (8 * n + k) % 8 = k by omega]
    exact (List.foldl_ext _ _ _ inside).symm

theorem dataCrc_eq (data : Block) :
    dataCrc data = (List.range 264).foldl
      (fun crc p => crcStep crc (streamBit data (p / 8) (UInt8.ofNat (7 - p % 8)))) 0 :=
  foldl_bytes (fun crc i bit => crcStep crc (streamBit data i bit)) 0 33

theorem dataCrc_remainder (data : Block) :
    bytePoly (dataCrc data) = (blockPoly data * X ^ 8) %ₘ crcModulus := by
  have zeros : stream (blockBit data) (256 + 8) = blockPoly data * X ^ 8 :=
    stream_append_zeros fun p low _ => dif_neg (by unfold kBlockSize; omega)
  rw [dataCrc_eq, ← zeros]
  refine register_run bytePoly _ 0 crcModulus_monic ?_ ?_ 264
  · simp [bytePoly_eq, byteBit_zero]
  · intro crc p
    rw [bytePoly_crcStep crc (streamBit_single data _ _), byteBit_streamBit]

theorem blockBit_xor (d e : Block) (p : Nat) :
    blockBit (blockXor d e) p = blockBit d p - blockBit e p := by
  rw [CharTwo.sub_eq_add]
  unfold blockBit blockXor
  split
  · exact byteBit_xor _ _ _
  · exact (add_zero 0).symm

/-- Blocks of one CRC differ by a multiple of the modulus. -/
theorem dvd_of_same_crc {d e : Block} (same : dataCrc d = dataCrc e) :
    crcModulus ∣ blockPoly (blockXor d e) * X ^ 8 := by
  have remainders := congrArg bytePoly same
  rw [dataCrc_remainder, dataCrc_remainder, same_remainder_iff crcModulus_monic] at remainders
  have difference : blockPoly (blockXor d e) = blockPoly d - blockPoly e := by
    rw [blockPoly, funext (blockBit_xor d e), stream_sub]
    rfl
  rwa [difference, sub_mul]

theorem blockBit_eq_ite (d : Block) {p : Nat} (inside : p < 256) :
    blockBit d p = if p ∈ oneBits d then 1 else 0 := by
  have binary : ∀ c : ZMod 2, c = if c = 1 then 1 else 0 := by decide
  have member : p ∈ oneBits d ↔ blockBit d p = 1 := by
    rw [oneBits, Finset.mem_filter, and_iff_right (Finset.mem_range.mpr inside)]
  rw [binary (blockBit d p)]
  simp only [member]

theorem sum_blockBit (d : Block) : ∑ p ∈ Finset.range 256, blockBit d p = (oneBits d).card := by
  have bits : ∑ p ∈ Finset.range 256, blockBit d p =
      ∑ p ∈ Finset.range 256, if p ∈ oneBits d then (1 : ZMod 2) else 0 :=
    Finset.sum_congr rfl fun p hp => blockBit_eq_ite d (Finset.mem_range.mp hp)
  have within : Finset.range 256 ∩ oneBits d = oneBits d :=
    Finset.inter_eq_right.mpr (Finset.filter_subset _ _)
  rw [bits, Finset.sum_ite_mem, within, Finset.sum_const, nsmul_one]

theorem crc_detects_odd {d e : Block} (odd : Odd (oneBits (blockXor d e)).card) :
    dataCrc d ≠ dataCrc e := by
  intro same
  have even := sum_eq_zero_of_dvd crcModulus_root (dvd_of_same_crc same)
  rw [sum_blockBit, ZMod.natCast_eq_zero_iff_even] at even
  exact Nat.not_even_iff_odd.mpr odd even

theorem crc_detects_burst {d e : Block} (low : Nat) (differ : (oneBits (blockXor d e)).Nonempty)
    (burst : ∀ p ∈ oneBits (blockXor d e), low ≤ p ∧ p < low + 8) : dataCrc d ≠ dataCrc e := by
  intro same
  obtain ⟨p, hp⟩ := differ
  obtain ⟨inside, set⟩ := Finset.mem_filter.mp hp
  have confined : ∀ i, i < 256 → blockBit (blockXor d e) i ≠ 0 → low ≤ i ∧ i < low + 8 := by
    intro i hi nonzero
    have bit := blockBit_eq_ite (blockXor d e) hi
    by_cases member : i ∈ oneBits (blockXor d e)
    · exact burst i member
    · rw [if_neg member] at bit
      exact absurd bit nonzero
  have nothing := burst_eq_zero_of_dvd crcModulus_monic crcModulus_degree crcModulus_coprime
    confined (dvd_of_same_crc same) p (Finset.mem_range.mp inside)
  rw [nothing] at set
  exact zero_ne_one set

/-- The CRC is the remainder of the block, and tells apart what differs in an odd number of bits
or in a run of eight. -/
theorem dataCrc_divides (d e : Block) :
    bytePoly (dataCrc d) = (blockPoly d * X ^ 8) %ₘ crcModulus ∧
      (Odd (oneBits (blockXor d e)).card → dataCrc d ≠ dataCrc e) ∧
      ((oneBits (blockXor d e)).Nonempty →
        (∃ low, ∀ p ∈ oneBits (blockXor d e), low ≤ p ∧ p < low + 8) →
        dataCrc d ≠ dataCrc e) :=
  ⟨dataCrc_remainder d, crc_detects_odd, fun differ ⟨low, burst⟩ =>
    crc_detects_burst low differ burst⟩

end Rayman2Recomp
