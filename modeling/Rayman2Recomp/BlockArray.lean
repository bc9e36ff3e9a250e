import Mathlib.Logic.Equiv.Fin.Basic

namespace BlockArray

variable {α : Type} {count size : Nat}

/-- Block `b` of an array that is `count` blocks of `size` cells, laid end to end. -/
def blockAt (m : Fin (count * size) → α) (b : Fin count) : Fin size → α :=
  fun j => m (finProdFinEquiv (b, j))

def setBlock (m : Fin (count * size) → α) (b : Fin count) (d : Fin size → α) :
    Fin (count * size) → α :=
  fun i => if i.divNat = b then d i.modNat else m i

theorem cell_divNat (b : Fin count) (j : Fin size) : (finProdFinEquiv (b, j)).divNat = b :=
  congrArg Prod.fst (finProdFinEquiv.symm_apply_apply (b, j))

theorem cell_modNat (b : Fin count) (j : Fin size) : (finProdFinEquiv (b, j)).modNat = j :=
  congrArg Prod.snd (finProdFinEquiv.symm_apply_apply (b, j))

theorem cell_divNat_modNat (i : Fin (count * size)) : finProdFinEquiv (i.divNat, i.modNat) = i :=
  finProdFinEquiv.apply_symm_apply i

@[simp] theorem blockAt_setBlock_same (m : Fin (count * size) → α) (b : Fin count)
    (d : Fin size → α) : blockAt (setBlock m b d) b = d := by
  funext j
  simp only [blockAt, setBlock, cell_divNat, cell_modNat, if_true]

@[simp] theorem blockAt_setBlock_other (m : Fin (count * size) → α) {b c : Fin count}
    (h : c ≠ b) (d : Fin size → α) : blockAt (setBlock m b d) c = blockAt m c := by
  funext j
  simp only [blockAt, setBlock, cell_divNat, if_neg h]

theorem eq_of_blockAt_eq {m n : Fin (count * size) → α}
    (h : ∀ b, blockAt m b = blockAt n b) : m = n := by
  funext i
  have cell := congrFun (h i.divNat) i.modNat
  simpa only [blockAt, cell_divNat_modNat] using cell

theorem setBlock_blockAt (m : Fin (count * size) → α) (b : Fin count) :
    setBlock m b (blockAt m b) = m := by
  apply eq_of_blockAt_eq
  intro c
  by_cases h : c = b
  · subst c
    exact blockAt_setBlock_same m b (blockAt m b)
  · exact blockAt_setBlock_other m h (blockAt m b)

end BlockArray
