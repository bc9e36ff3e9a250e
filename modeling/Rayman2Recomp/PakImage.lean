import Rayman2Recomp.BlockArray
import Rayman2Recomp.Disk
import Mathlib.Data.List.GetD
import Mathlib.Data.List.OfFn

open BlockArray Disk

namespace Rayman2Recomp

abbrev kPakSize : Nat := 0x8000
abbrev kBlockSize : Nat := 32
abbrev kBlockCount : Nat := kPakSize / kBlockSize

abbrev Block := Fin kBlockSize → UInt8
abbrev Image := Fin (kBlockCount * kBlockSize) → UInt8

def sumBytes (bytes : Bytes) : UInt16 := bytes.foldl (fun sum byte => sum + byte.toUInt16) 0

def memcpy {n : Nat} (m : Image) (start : Nat) (source : Fin n → UInt8) : Image :=
  fun i => if h : start ≤ i.val ∧ i.val - start < n then source ⟨i.val - start, h.2⟩ else m i

/-- The ID block before its checksums: `deviceid` marks the pak valid, and
there is one bank. -/
def idFields : Block := fun i => if i.val = 0x19 ∨ i.val = 0x1A then 1 else 0

def halfword (id : Block) (k : Fin 16) : UInt16 :=
  have even : 2 * k.val + 1 < kBlockSize := by simp only [kBlockSize]; omega
  ((id ⟨2 * k, by omega⟩).toUInt16 <<< 8) ||| (id ⟨2 * k + 1, even⟩).toUInt16

def idChecksum (id : Block) : UInt16 :=
  (List.range 14).foldl (fun sum k => sum + halfword id (Fin.ofNat 16 k)) 0

def idInverted (id : Block) : UInt16 :=
  (List.range 14).foldl (fun sum k => sum + ~~~(halfword id (Fin.ofNat 16 k))) 0

def idBlock : Block := fun i =>
  if i.val = 0x1C then (idChecksum idFields >>> 8).toUInt8
  else if i.val = 0x1D then (idChecksum idFields).toUInt8
  else if i.val = 0x1E then (idInverted idFields >>> 8).toUInt8
  else if i.val = 0x1F then (idInverted idFields).toUInt8
  else idFields i

/-- Pages 5 to 127 carry the free marker 3. -/
def inodeEntries : Fin 256 → UInt8 := fun i => if 10 ≤ i.val ∧ i.val % 2 = 1 then 3 else 0

def inodePage : Fin 256 → UInt8 := fun i =>
  if i.val = 1 then (sumBytes ((List.ofFn inodeEntries).drop 10)).toUInt8 else inodeEntries i

def formatEmpty : Image :=
  let ids := [1, 3, 4, 6].foldl (fun m block => memcpy m (block * kBlockSize) idBlock) (fun _ => 0)
  memcpy (memcpy ids (1 * 256) inodePage) (2 * 256) inodePage

/-- Both checksums of the ID block agree with its first 28 bytes. -/
theorem idBlock_verifies :
    halfword idBlock 14 = idChecksum idBlock ∧ halfword idBlock 15 = idInverted idBlock := by
  decide

theorem memcpy_outside {n : Nat} {m : Image} {start : Nat} {source : Fin n → UInt8}
    {i : Fin (kBlockCount * kBlockSize)} (h : i.val < start ∨ start + n ≤ i.val) :
    memcpy m start source i = m i := dif_neg (by omega)

/-- Nothing is formatted past the inode backup. -/
theorem formatEmpty_free {b : Fin kBlockCount} (h : 24 ≤ b.val) :
    blockAt formatEmpty b = fun _ => 0 := by
  funext j
  have cell : (finProdFinEquiv (b, j)).val = j + 32 * b := rfl
  simp only [blockAt, formatEmpty, List.foldl_cons, List.foldl_nil, kBlockSize]
  repeat rw [memcpy_outside (by omega)]

def imageOf (bytes : Bytes) : Image := fun i => bytes.getD i.val 0

def imageBytes (m : Image) : Bytes := List.ofFn m

@[simp] theorem imageBytes_length (m : Image) : (imageBytes m).length = kPakSize :=
  List.length_ofFn

@[simp] theorem imageOf_imageBytes (m : Image) : imageOf (imageBytes m) = m := by
  funext i
  have bound : i.val < (List.ofFn m).length := by rw [List.length_ofFn]; exact i.isLt
  simp only [imageOf, imageBytes, List.getD_eq_getElem _ _ bound, List.getElem_ofFn, Fin.eta]

theorem imageBytes_imageOf {bytes : Bytes} (h : bytes.length = kPakSize) :
    imageBytes (imageOf bytes) = bytes := by
  apply List.ext_getElem (by rw [imageBytes_length, h])
  intro i hi hb
  simp only [imageBytes, List.getElem_ofFn, imageOf, List.getD_eq_getElem _ _ hb]

/-- Only the first 32 KiB of a longer file are read. -/
theorem imageOf_take {bytes : Bytes} {n : Nat} (h : kPakSize ≤ n) :
    imageOf (bytes.take n) = imageOf bytes := by
  funext i
  have bound : i.val < n := lt_of_lt_of_le i.isLt h
  simp only [imageOf, List.getD_eq_getElem?_getD, List.getElem?_take_of_lt bound]

end Rayman2Recomp
