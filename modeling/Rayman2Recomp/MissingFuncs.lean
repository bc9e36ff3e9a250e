import Rayman2Recomp.Disk
import Rayman2Recomp.LinkSyms

open Disk

namespace Rayman2Recomp

/-- A row `readelf -sW` prints with all its columns; the others are not read. -/
structure ElfSymbol where
  value : Nat
  type : String
  name : List Char

def dataKinds : List (List Char) :=
  [['D', '_'], ['j', 't', 'b', 'l', '_'], ['j', 'p', 't', '_']]

def isDataName (name : List Char) : Bool :=
  dataKinds.any fun kind =>
    let address := name.drop kind.length
    name.take kind.length == kind && address.length == 8 && address.all isHex

def funcName (addr : Nat) : List Char :=
  let digits := (Nat.toDigits 16 addr).map Char.toUpper
  ['f', 'u', 'n', 'c', '_'] ++ (List.replicate (8 - digits.length) '0' ++ digits)

def existingFuncs (elf : List ElfSymbol) : List Nat :=
  (elf.filter fun symbol => symbol.type == "FUNC" && !isDataName symbol.name).map
    ElfSymbol.value

structure CodeSegment where
  romStart : Nat
  codeEnd : Nat
  vramStart : Nat

def codeSegments : List CodeSegment :=
  [⟨0x001000, 0x01A860, 0x80000400⟩,
    ⟨0x01DCC0, 0x0BEE10, 0x80025C50⟩,
    ⟨0x0C5BF0, 0x0D0100, 0x800F64A0⟩]

def inCode (t : Nat) : Bool :=
  codeSegments.any fun s => s.vramStart ≤ t && t < s.vramStart + (s.codeEnd - s.romStart)

/-- `struct.unpack` of big-endian words, which fails on a length that is not a
multiple of 4. -/
def unpackWords : Bytes → Option (List Nat)
  | [] => some []
  | a :: b :: c :: d :: rest =>
    (unpackWords rest).map
      ((((a.toNat * 256 + b.toNat) * 256 + c.toNat) * 256 + d.toNat) :: ·)
  | _ => none

def jalTarget (pc word : Nat) : Nat := (pc &&& 0xF0000000) ||| ((word &&& 0x03FFFFFF) <<< 2)

def wordTarget (s : CodeSegment) (word : Nat × Nat) : Option Nat :=
  if word.1 >>> 26 ≠ 3 then none
  else
    let t := jalTarget (s.vramStart + word.2 * 4) word.1
    if inCode t then some t else none

def segmentTargets (rom : Bytes) (s : CodeSegment) : Option (List Nat) :=
  (unpackWords ((rom.drop s.romStart).take (s.codeEnd - s.romStart))).map fun words =>
    words.zipIdx.filterMap (wordTarget s)

/-- The targets, each as often as it is called. -/
def callTargets (rom : Bytes) : Option (List Nat) :=
  (codeSegments.mapM (segmentTargets rom)).map List.flatten

/-- The addresses a run declares, in the order it writes them to `auto_funcs.txt`;
their number is what it prints as newly declared. -/
def genMissingFuncs (rom : Bytes) (elf : List ElfSymbol) : Option (List Nat) :=
  (callTargets rom).map fun targets =>
    (targets.dedup.filter fun t => t ∉ existingFuncs elf).mergeSort

theorem funcName_code (addr : Nat) : isDataName (funcName addr) = false := by
  simp [funcName, isDataName, dataKinds]

theorem genMissingFuncs_mem {rom : Bytes} {elf : List ElfSymbol} {targets missing : List Nat}
    (scanned : callTargets rom = some targets) (written : genMissingFuncs rom elf = some missing)
    (t : Nat) : t ∈ missing ↔ t ∈ targets ∧ t ∉ existingFuncs elf := by
  rw [genMissingFuncs, scanned, Option.map_some] at written
  cases written
  simp [List.mem_mergeSort]

theorem genMissingFuncs_scanned {rom : Bytes} {elf : List ElfSymbol} {missing : List Nat}
    (written : genMissingFuncs rom elf = some missing) :
    ∃ targets, callTargets rom = some targets := by
  obtain ⟨targets, scanned, _⟩ := Option.map_eq_some_iff.mp written
  exact ⟨targets, scanned⟩

theorem genMissingFuncs_of_scanned {rom : Bytes} {targets : List Nat}
    (scanned : callTargets rom = some targets) (elf : List ElfSymbol) :
    ∃ missing, genMissingFuncs rom elf = some missing := by
  rw [genMissingFuncs, scanned]
  exact ⟨_, rfl⟩

end Rayman2Recomp
