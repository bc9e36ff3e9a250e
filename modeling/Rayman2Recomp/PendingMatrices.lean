import Rayman2Recomp.CameraFov
import Mathlib.Data.List.Nodup

open ByteMemory Runs

namespace Rayman2Recomp

/-- Where the game keeps its matrices, its cameras and the far planes on its
stack. No matrix overlaps anything else. -/
structure Layout where
  matrix : Set (BitVec 32)
  camera : Set Camera
  stack : Set Int
  matrices_apart : ∀ a ∈ matrix, ∀ b ∈ matrix, a ≠ b → Apart a.toInt 64 b.toInt 64
  camera_apart : ∀ a ∈ matrix, ∀ c ∈ camera, Apart c.word 4 a.toInt 64
  stack_apart : ∀ a ∈ matrix, ∀ sp ∈ stack, Apart (sp + 0x14) 4 a.toInt 64

variable {K : Type}

/-- The factor a matrix is still owed at the next handover. -/
def owed (pending : List (Pending K)) (a : BitVec 32) : Option K :=
  (pending.find? (·.address = a)).map Pending.factor

theorem owed_nil (a : BitVec 32) : owed ([] : List (Pending K)) a = none := rfl

theorem owed_cons (entry : Pending K) (rest : List (Pending K)) (a : BitVec 32) :
    owed (entry :: rest) a = if entry.address = a then some entry.factor else owed rest a := by
  unfold owed
  by_cases h : entry.address = a
  · rw [List.find?_cons_of_pos (by simpa using h), if_pos h]
    rfl
  · rw [List.find?_cons_of_neg (by simpa using h), if_neg h]

theorem owed_none_iff {pending : List (Pending K)} {a : BitVec 32} :
    owed pending a = none ↔ a ∉ pending.map Pending.address := by
  induction pending with
  | nil => simp [owed_nil]
  | cons entry rest ih =>
    rw [owed_cons, List.map_cons, List.mem_cons, not_or, ← ih]
    by_cases h : entry.address = a
    · simp [h]
    · simp [h, Ne.symm h]

theorem setFactor_none {pending : List (Pending K)} {mtx : BitVec 32} {k : K} :
    setFactor mtx k pending = none ↔ owed pending mtx = none := by
  induction pending with
  | nil => simp [setFactor, owed_nil]
  | cons entry rest ih =>
    rw [setFactor, owed_cons]
    by_cases h : entry.address = mtx
    · simp [h]
    · simp [h, ih]

theorem setFactor_some {pending rebuilt : List (Pending K)} {mtx : BitVec 32} {k : K}
    (h : setFactor mtx k pending = some rebuilt) :
    rebuilt.map Pending.address = pending.map Pending.address ∧
      ∀ a, owed rebuilt a = if a = mtx then some k else owed pending a := by
  induction pending generalizing rebuilt with
  | nil => cases h
  | cons entry rest ih =>
    rw [setFactor] at h
    split at h
    next found =>
      cases h
      refine ⟨rfl, fun a => ?_⟩
      subst mtx
      rw [owed_cons, owed_cons]
      by_cases ha : entry.address = a
      · simp [ha]
      · simp [ha, Ne.symm ha]
    next other =>
      obtain ⟨tail, htail, rfl⟩ := Option.map_eq_some_iff.mp h
      obtain ⟨addresses, factors⟩ := ih htail
      refine ⟨by rw [List.map_cons, List.map_cons, addresses], fun a => ?_⟩
      rw [owed_cons, owed_cons, factors a]
      by_cases ha : entry.address = a
      · have : a ≠ mtx := fun same => other (ha.trans same)
        simp [ha, this]
      · simp [ha]

/-- A matrix takes the last factor noted for it, unless the list is full. -/
theorem owed_notePending_same {pending : List (Pending K)} {mtx : BitVec 32} {k : K}
    (room : owed pending mtx ≠ none ∨ pending.length < 16) :
    owed (notePending pending mtx k) mtx = some k := by
  unfold notePending
  cases found : setFactor mtx k pending with
  | some rebuilt =>
    dsimp only
    rw [(setFactor_some found).2 mtx, if_pos rfl]
  | none =>
    have fresh := setFactor_none.mp found
    have short : pending.length < 16 := room.resolve_left (not_not.mpr fresh)
    have absent : pending.find? (·.address = mtx) = none := by
      simpa [owed] using fresh
    dsimp only
    rw [if_pos short]
    simp [owed, List.find?_append, absent]

theorem owed_notePending_other {pending : List (Pending K)} {mtx a : BitVec 32} (h : a ≠ mtx)
    (k : K) : owed (notePending pending mtx k) a = owed pending a := by
  unfold notePending
  cases found : setFactor mtx k pending with
  | some rebuilt =>
    dsimp only
    rw [(setFactor_some found).2 a, if_neg h]
  | none =>
    have differs : ([⟨mtx, k⟩] : List (Pending K)).find? (·.address = a) = none := by
      simpa using Ne.symm h
    dsimp only
    split
    next => simp [owed, List.find?_append, differs]
    next => rfl

theorem owed_some {pending : List (Pending K)} {a : BitVec 32} {k : K}
    (h : owed pending a = some k) : ∃ p ∈ pending, p.address = a ∧ p.factor = k := by
  obtain ⟨p, found, factor⟩ := Option.map_eq_some_iff.mp h
  exact ⟨p, List.mem_of_find?_eq_some found, by simpa using List.find?_some found, factor⟩

theorem notePending_full {pending : List (Pending K)} {mtx : BitVec 32} {k : K}
    (fresh : owed pending mtx = none) (full : 16 ≤ pending.length) :
    notePending pending mtx k = pending := by
  unfold notePending
  rw [setFactor_none.mpr fresh]
  exact if_neg (by omega)

theorem notePending_address (pending : List (Pending K)) (mtx : BitVec 32) (k : K) :
    (notePending pending mtx k).map Pending.address = pending.map Pending.address ∨
      (mtx ∉ pending.map Pending.address ∧
        (notePending pending mtx k).map Pending.address = pending.map Pending.address ++ [mtx]) := by
  unfold notePending
  cases found : setFactor mtx k pending with
  | some rebuilt => exact Or.inl (setFactor_some found).1
  | none =>
    dsimp only
    split
    next => exact Or.inr ⟨owed_none_iff.mp (setFactor_none.mp found), by simp⟩
    next => exact Or.inl rfl

theorem elements_apart {base off off' x : Int} (h : off ∈ elementOffsets)
    (h' : off' ∈ elementOffsets) (differ : off ≠ off') (inside : OfElement base off x) :
    ¬OfElement base off' x := by
  simp only [elementOffsets, List.mem_cons, List.not_mem_nil, or_false] at h h'
  unfold OfElement at inside ⊢
  omega

theorem element_inside {base off x : Int} (h : off ∈ elementOffsets) (inside : OfElement base off x) :
    base ≤ x ∧ x < base + 64 := by
  simp only [elementOffsets, List.mem_cons, List.not_mem_nil, or_false] at h
  unfold OfElement at inside
  omega

theorem narrowMatrix_outside {e : FovSettings K} {m : Rdram} {entry : Pending K} {x : Int}
    (h : x < entry.address.toInt ∨ entry.address.toInt + 64 ≤ x) :
    narrowMatrix e m entry x = m x := by
  have off : ∀ off ∈ elementOffsets, ¬OfElement entry.address.toInt off x := by
    intro off hoff inside
    have := element_inside hoff inside
    omega
  unfold narrowMatrix elementOffsets
  simp only [List.foldl_cons, List.foldl_nil]
  rw [narrowElement_outside (off 10 (by decide)), narrowElement_outside (off 0 (by decide))]

theorem element_narrowElement_other {e : FovSettings K} {k : K} {m : Rdram} {base off off' : Int}
    (h : off ∈ elementOffsets) (h' : off' ∈ elementOffsets) (differ : off ≠ off') :
    element (narrowElement e k base m off') base off = element m base off :=
  element_congr fun _ inside => narrowElement_outside (elements_apart h h' differ inside)

theorem element_narrowMatrix_same (e : FovSettings K) (m : Rdram) (entry : Pending K) {off : Int}
    (h : off ∈ elementOffsets) :
    element (narrowMatrix e m entry) entry.address.toInt off =
      (e.narrowed (element m entry.address.toInt off) entry.factor).getD
        (element m entry.address.toInt off) := by
  have zero : (0 : Int) ∈ elementOffsets := by decide
  have ten : (10 : Int) ∈ elementOffsets := by decide
  unfold narrowMatrix
  simp only [elementOffsets, List.foldl_cons, List.foldl_nil]
  rcases List.mem_pair.mp h with rfl | rfl
  · rw [element_narrowElement_other zero ten (by decide), element_narrowElement]
  · rw [element_narrowElement, element_narrowElement_other ten zero (by decide)]

theorem element_narrowMatrix_other {e : FovSettings K} {m : Rdram} {entry : Pending K}
    {base off : Int} (apart : Apart entry.address.toInt 64 base 64) (h : off ∈ elementOffsets) :
    element (narrowMatrix e m entry) base off = element m base off := by
  refine element_congr fun x inside => narrowMatrix_outside ?_
  have := element_inside h inside
  unfold Apart at apart
  omega

/-- Narrowing takes each noted matrix once, by its own factor, and no other. -/
theorem element_narrowed {e : FovSettings K} {l : Layout} {pending : List (Pending K)}
    (once : (pending.map Pending.address).Nodup) (known : ∀ p ∈ pending, p.address ∈ l.matrix)
    {a : BitVec 32} (ha : a ∈ l.matrix) {off : Int} (h : off ∈ elementOffsets) (m : Rdram) :
    element (pending.foldl (narrowMatrix e) m) a.toInt off =
      match owed pending a with
      | none => element m a.toInt off
      | some k => (e.narrowed (element m a.toInt off) k).getD (element m a.toInt off) := by
  induction pending generalizing m with
  | nil => rfl
  | cons entry rest ih =>
    obtain ⟨fresh, once⟩ := List.nodup_cons.mp once
    rw [List.foldl_cons, ih once fun p hp => known p (List.mem_cons_of_mem _ hp), owed_cons]
    by_cases same : entry.address = a
    · subst a
      rw [owed_none_iff.mpr fresh, if_pos rfl]
      exact element_narrowMatrix_same e m entry h
    · have apart := l.matrices_apart entry.address (known entry List.mem_cons_self) a ha same
      rw [if_neg same, element_narrowMatrix_other apart h]

end Rayman2Recomp
