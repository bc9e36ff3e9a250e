import Mathlib.Data.List.Basic

namespace Rayman2Recomp

/-- The N64's memory as the port holds it, by index; the byte of game address `A`
stands at `A ^ 3`. -/
abbrev HostRam := Nat → UInt8

def kRamSize : Nat := 0x800000

@[irreducible] def kWords : Nat := kRamSize / 4

theorem kRamSize_eq : kRamSize = 4 * kWords := by
  unfold kWords
  decide

def gameByte (ram : HostRam) (addr : Nat) : UInt8 := ram (addr ^^^ 3)

def gameHalf (ram : HostRam) (addr : Nat) : Nat :=
  256 * (gameByte ram addr).toNat + (gameByte ram (addr + 1)).toNat

/-- Four bytes copied into a word of the little-endian host. -/
def hostWord (ram : HostRam) (offset : Nat) : UInt32 :=
  (ram offset).toUInt32 ||| ((ram (offset + 1)).toUInt32 <<< 8) |||
    ((ram (offset + 2)).toUInt32 <<< 16) ||| ((ram (offset + 3)).toUInt32 <<< 24)

def wordOffsets : List Nat := (List.range kWords).map fun i => i * 4

theorem wordOffsets_ascending : wordOffsets.Pairwise (· < ·) := by
  rw [wordOffsets, List.pairwise_map]
  refine List.pairwise_lt_range.imp fun {a b} lt => ?_
  omega

theorem mem_wordOffsets {o : Nat} : o ∈ wordOffsets ↔ o % 4 = 0 ∧ o < kRamSize := by
  have size := kRamSize_eq
  rw [wordOffsets, List.mem_map]
  constructor
  · rintro ⟨i, mem, rfl⟩
    have lt := List.mem_range.mp mem
    omega
  · rintro ⟨aligned, lt⟩
    exact ⟨o / 4, List.mem_range.mpr (by omega), by omega⟩

end Rayman2Recomp
