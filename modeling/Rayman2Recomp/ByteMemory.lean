import Mathlib.Logic.Function.Basic
import Mathlib.Data.List.FinRange

namespace ByteMemory

/-- One byte for every address. -/
abbrev Mem := Int → UInt8

def loadByte (m : Mem) (a : Int) : UInt8 := m a

def storeByte (m : Mem) (a : Int) (v : UInt8) : Mem := Function.update m a v

@[simp] theorem storeByte_same (m : Mem) (a : Int) (v : UInt8) : storeByte m a v a = v := by
  rw [storeByte, Function.update_self]

theorem storeByte_other {m : Mem} {a x : Int} {v : UInt8} (h : x ≠ a) :
    storeByte m a v x = m x := by
  rw [storeByte, Function.update_of_ne h]

theorem storeByte_eq_self {m : Mem} {a : Int} {v : UInt8} (h : m a = v) : storeByte m a v = m := by
  rw [← h]
  exact Function.update_eq_self a m

/-- A loop that stores `n` bytes from `a` upwards. -/
def storeBytes {n : Nat} (m : Mem) (a : Int) (bytes : Fin n → UInt8) : Mem :=
  (List.finRange n).foldl (fun m i => storeByte m (a + i.val) (bytes i)) m

theorem foldl_storeByte_outside {n : Nat} {m : Mem} {a x : Int} {bytes : Fin n → UInt8}
    {is : List (Fin n)} (h : ∀ i ∈ is, x ≠ a + i.val) :
    is.foldl (fun m i => storeByte m (a + i.val) (bytes i)) m x = m x := by
  induction is generalizing m with
  | nil => rfl
  | cons i is ih =>
    rw [List.foldl_cons, ih (fun j hj => h j (List.mem_cons_of_mem i hj)),
      storeByte_other (h i List.mem_cons_self)]

theorem storeBytes_outside {n : Nat} {m : Mem} {a x : Int} {bytes : Fin n → UInt8}
    (h : x < a ∨ a + n ≤ x) : storeBytes m a bytes x = m x := by
  apply foldl_storeByte_outside
  intro i _
  have := i.isLt
  omega

theorem storeBytes_inside {n : Nat} (m : Mem) (a : Int) (bytes : Fin n → UInt8) (i : Fin n) :
    storeBytes m a bytes (a + i.val) = bytes i := by
  have inside : ∀ (is : List (Fin n)) (m : Mem), is.Nodup → i ∈ is →
      is.foldl (fun m i => storeByte m (a + i.val) (bytes i)) m (a + i.val) = bytes i := by
    intro is
    induction is with
    | nil => simp
    | cons j is ih =>
      intro m once mem
      obtain ⟨fresh, once⟩ := List.nodup_cons.mp once
      rw [List.foldl_cons]
      rcases List.mem_cons.mp mem with rfl | mem
      · rw [foldl_storeByte_outside, storeByte_same]
        rintro k hk same
        have : i = k := Fin.ext (by omega)
        exact fresh (this ▸ hk)
      · exact ih _ once mem
  exact inside (List.finRange n) m (List.nodup_finRange n) (List.mem_finRange i)

theorem storeBytes_eq_self {n : Nat} {m : Mem} {a : Int} {bytes : Fin n → UInt8}
    (h : ∀ i : Fin n, m (a + i.val) = bytes i) : storeBytes m a bytes = m := by
  funext x
  by_cases hx : x < a ∨ a + n ≤ x
  · exact storeBytes_outside hx
  · have at_x : x = a + ((⟨(x - a).toNat, by omega⟩ : Fin n).val : Int) := by simp only; omega
    rw [at_x, storeBytes_inside, h]

end ByteMemory
