import Rayman2Recomp.SiFrames
import Mathlib.Tactic.SplitIfs

open BlockArray ByteMemory Disk

namespace Rayman2Recomp

theorem blockAddress_fin (p : Fin 4) {block : Nat} (h : block < kBlockDetect) :
    blockAddress (p.val : Int) (block : Int) = some (p, ⟨block, h⟩) := by
  have valid : ¬((p.val : Int) < 0 ∨ (p.val : Int) ≥ 4 ∨ (block : Int) < 0 ∨
      (block : Int) ≥ kBlockCount) := by
    have := p.isLt
    simp only [kBlockDetect, kBlockCount, kPakSize, kBlockSize] at h ⊢
    omega
  rw [blockAddress, dif_neg valid]
  rfl

theorem ensureLoaded_of_loaded {s : PakStore} {p : Fin 4} (h : s.loaded p) (o : LoadOutcome) :
    ensureLoaded s p o = s := if_pos h

theorem ensureLoaded_loaded (s : PakStore) (p : Fin 4) (o : LoadOutcome) :
    (ensureLoaded s p o).loaded p := by
  unfold ensureLoaded
  split
  next h => exact h
  next => split <;> simp [PakStore.install]

theorem writeBlock_loaded {s : PakStore} {port block : Int} {p : Fin 4} {b : Fin kBlockCount}
    (h : blockAddress port block = some (p, b)) (data : Block) (o : LoadOutcome) :
    (writeBlock s port block data o).2.loaded p := by
  simp only [writeBlock, h]
  split <;> exact ensureLoaded_loaded s p o

theorem writeBlock_stored {s : PakStore} {port block : Int} {p : Fin 4} {b : Fin kBlockCount}
    (h : blockAddress port block = some (p, b)) (data : Block) (o : LoadOutcome) :
    blockAt ((writeBlock s port block data o).2.pak p) b = data := by
  simp only [writeBlock, h]
  split
  next => simp
  next same => exact not_not.mp same

/-- Writing the same data to the same block a second time changes nothing. -/
theorem writeBlock_again {s : PakStore} {port block : Int} {p : Fin 4} {b : Fin kBlockCount}
    (h : blockAddress port block = some (p, b)) (data : Block) (o o' : LoadOutcome) :
    (writeBlock (writeBlock s port block data o).2 port block data o').2 =
      (writeBlock s port block data o).2 := by
  have loaded := writeBlock_loaded (s := s) h data o
  have stored := writeBlock_stored (s := s) h data o
  generalize (writeBlock s port block data o).2 = t at loaded stored ⊢
  simp [writeBlock, h, ensureLoaded_of_loaded loaded, stored]

theorem readBlock_again {s : PakStore} {port block : Int} {p : Fin 4} {b : Fin kBlockCount}
    (h : blockAddress port block = some (p, b)) (o o' : LoadOutcome) :
    readBlock (readBlock s port block o).2 port block o' = readBlock s port block o := by
  simp only [readBlock, h, ensureLoaded_of_loaded (ensureLoaded_loaded s p o)]

def frameBlock (rdram : Rdram) (base : Int) : Nat := frameAddress rdram base >>> 5

def frameData (rdram : Rdram) (base : Int) : Block := fun i => memBU rdram (6 + i.val) base

/-- What a write frame does to the state it is served from. -/
def writePak (w : SiState) (c : Fin 4) (block : Nat) (data : Block) (o : LoadOutcome) : SiState :=
  if block = kBlockDetect then { w with detect := Function.update w.detect c data }
  else if block < kBlockDetect then { w with store := (writeBlock w.store c.val block data o).2 }
  else w

def readPakBlock (w : SiState) (c : Fin 4) (block : Nat) (o : LoadOutcome) : Block × SiState :=
  if block = kBlockDetect then (w.detect c, w)
  else if block < kBlockDetect then
    ((readBlock w.store c.val block o).1.getD fun _ => 0,
      { w with store := (readBlock w.store c.val block o).2 })
  else (fun _ => 0, w)

theorem serve_write (w : SiState) (rdram : Rdram) (pif : Int) (c : Fin 4) (o : LoadOutcome) :
    serve w rdram pif c o .write =
      (writePak w c (frameBlock rdram (pif + c.val)) (frameData rdram (pif + c.val)) o,
        memB rdram 0x26 (pif + c.val) (dataCrc (frameData rdram (pif + c.val)))) := by
  unfold serve handlePakBlock writePak frameBlock frameData
  simp only [beq_self_eq_true, if_true]
  split_ifs <;> rfl

/-- The reply to a read frame: 32 bytes of data and their CRC. -/
def readReply (rdram : Rdram) (base : Int) (data : Block) : Rdram :=
  memB (storeBytes rdram (base + 6) data) 0x26 base (dataCrc data)

theorem serve_read (w : SiState) (rdram : Rdram) (pif : Int) (c : Fin 4) (o : LoadOutcome) :
    serve w rdram pif c o .read =
      ((readPakBlock w c (frameBlock rdram (pif + c.val)) o).2,
        readReply rdram (pif + c.val) (readPakBlock w c (frameBlock rdram (pif + c.val)) o).1) := by
  have read : (kCmdReadPak == kCmdWritePak) = false := by decide
  unfold serve handlePakBlock readPakBlock frameBlock readReply
  simp only [read, Bool.false_eq_true, if_false]
  split_ifs with detect below
  · rfl
  · cases readBlock w.store c.val (frameAddress rdram (pif + c.val) >>> 5 : Nat) o with
    | mk out store => cases out <;> rfl
  · rfl

end Rayman2Recomp
