import Rayman2Recomp.ByteMemory

namespace ByteMemory

def Apart (a : Int) (n : Nat) (b : Int) (k : Nat) : Prop := a + n ≤ b ∨ b + k ≤ a

def loadHalf (m : Mem) (a : Int) : BitVec 16 :=
  (loadByte m a).toBitVec ++ (loadByte m (a + 1)).toBitVec

def storeHalf (m : Mem) (a : Int) (v : BitVec 16) : Mem :=
  storeByte (storeByte m a ⟨v.extractLsb' 8 8⟩) (a + 1) ⟨v.extractLsb' 0 8⟩

def loadWord (m : Mem) (a : Int) : BitVec 32 := loadHalf m a ++ loadHalf m (a + 2)

def storeWord (m : Mem) (a : Int) (v : BitVec 32) : Mem :=
  storeHalf (storeHalf m a (v.extractLsb' 16 16)) (a + 2) (v.extractLsb' 0 16)

theorem storeHalf_outside {m : Mem} {a x : Int} {v : BitVec 16} (h : x < a ∨ a + 2 ≤ x) :
    storeHalf m a v x = m x := by
  rw [storeHalf, storeByte_other (by omega), storeByte_other (by omega)]

theorem storeWord_outside {m : Mem} {a x : Int} {v : BitVec 32} (h : x < a ∨ a + 4 ≤ x) :
    storeWord m a v x = m x := by
  rw [storeWord, storeHalf_outside (by omega), storeHalf_outside (by omega)]

theorem loadHalf_congr {m n : Mem} {a : Int} (h : ∀ x, a ≤ x → x < a + 2 → m x = n x) :
    loadHalf m a = loadHalf n a := by
  rw [loadHalf, loadByte, loadByte, h a (by omega) (by omega), h (a + 1) (by omega) (by omega)]
  rfl

theorem loadWord_congr {m n : Mem} {a : Int} (h : ∀ x, a ≤ x → x < a + 4 → m x = n x) :
    loadWord m a = loadWord n a := by
  have high : loadHalf m a = loadHalf n a :=
    loadHalf_congr fun x lower upper => h x lower (by omega)
  have low : loadHalf m (a + 2) = loadHalf n (a + 2) :=
    loadHalf_congr fun x lower upper => h x (by omega) (by omega)
  rw [loadWord, high, low]
  rfl

@[simp] theorem loadHalf_storeHalf_same (m : Mem) (a : Int) (v : BitVec 16) :
    loadHalf (storeHalf m a v) a = v := by
  have high : storeHalf m a v a = ⟨v.extractLsb' 8 8⟩ := by
    rw [storeHalf, storeByte_other (by omega), storeByte_same]
  have low : storeHalf m a v (a + 1) = ⟨v.extractLsb' 0 8⟩ := storeByte_same _ _ _
  rw [loadHalf, loadByte, loadByte, high, low]
  exact BitVec.extractLsb'_append_extractLsb'

theorem loadHalf_storeHalf_apart {m : Mem} {a b : Int} {v : BitVec 16} (h : Apart b 2 a 2) :
    loadHalf (storeHalf m b v) a = loadHalf m a := by
  refine loadHalf_congr fun x lower upper => storeHalf_outside ?_
  unfold Apart at h
  omega

@[simp] theorem loadWord_storeWord_same (m : Mem) (a : Int) (v : BitVec 32) :
    loadWord (storeWord m a v) a = v := by
  have apart : Apart (a + 2) 2 a 2 := Or.inr (by omega)
  rw [loadWord, storeWord, loadHalf_storeHalf_apart apart, loadHalf_storeHalf_same,
    loadHalf_storeHalf_same]
  exact BitVec.extractLsb'_append_extractLsb'

theorem loadWord_storeWord_apart {m : Mem} {a b : Int} {v : BitVec 32} (h : Apart b 4 a 4) :
    loadWord (storeWord m b v) a = loadWord m a := by
  refine loadWord_congr fun x lower upper => storeWord_outside ?_
  unfold Apart at h
  omega

end ByteMemory
