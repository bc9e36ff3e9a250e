import Rayman2Recomp.ByteMemory

open ByteMemory

namespace AccessLog

/-- What a program leaves, and the addresses it loaded from or stored to, first to last. -/
structure Outcome (α : Type) where
  value : α
  mem : Mem
  touched : List Int

structure Traced (α : Type) where
  run : Mem → Outcome α

variable {α β : Type} {n : Nat}

def Traced.bind (x : Traced α) (f : α → Traced β) : Traced β where
  run mem :=
    let first := x.run mem
    let second := (f first.value).run first.mem
    ⟨second.value, second.mem, first.touched ++ second.touched⟩

instance : Monad Traced where
  pure value := ⟨fun mem => ⟨value, mem, []⟩⟩
  bind := Traced.bind

def load (a : Int) : Traced UInt8 := ⟨fun mem => ⟨loadByte mem a, mem, [a]⟩⟩

def store (a : Int) (v : UInt8) : Traced Unit := ⟨fun mem => ⟨(), storeByte mem a v, [a]⟩⟩

def loadEach (a : Int) : List (Fin n) → (Fin n → UInt8) → Traced (Fin n → UInt8)
  | [], data => pure data
  | i :: is, data => do
    let v ← load (a + i.val)
    loadEach a is (Function.update data i v)

def storeEach (a : Int) (data : Fin n → UInt8) : List (Fin n) → Traced Unit
  | [] => pure ()
  | i :: is => do
    store (a + i.val) (data i)
    storeEach a data is

@[simp] theorem run_pure (v : α) (mem : Mem) : (pure v : Traced α).run mem = ⟨v, mem, []⟩ := rfl

@[simp] theorem run_bind (x : Traced α) (f : α → Traced β) (mem : Mem) :
    (x >>= f).run mem =
      ⟨((f (x.run mem).value).run (x.run mem).mem).value,
        ((f (x.run mem).value).run (x.run mem).mem).mem,
        (x.run mem).touched ++ ((f (x.run mem).value).run (x.run mem).mem).touched⟩ := rfl

@[simp] theorem run_cond (c : Bool) (x y : Traced α) (mem : Mem) :
    (bif c then x else y).run mem = bif c then x.run mem else y.run mem := by
  cases c <;> rfl

@[simp] theorem run_load (a : Int) (mem : Mem) : (load a).run mem = ⟨mem a, mem, [a]⟩ := rfl

@[simp] theorem run_store (a : Int) (v : UInt8) (mem : Mem) :
    (store a v).run mem = ⟨(), storeByte mem a v, [a]⟩ := rfl

theorem loadEach_value (a : Int) (mem : Mem) (is : List (Fin n)) (data : Fin n → UInt8) (j : Fin n) :
    ((loadEach a is data).run mem).value j = if j ∈ is then mem (a + j.val) else data j := by
  induction is generalizing data with
  | nil => simp [loadEach]
  | cons i is ih =>
    simp only [loadEach, run_bind, run_load, ih, List.mem_cons]
    by_cases later : j ∈ is
    · simp [later]
    · by_cases same : j = i
      · subst same
        simp [later]
      · simp [later, same]

theorem loadEach_mem (a : Int) (mem : Mem) (is : List (Fin n)) (data : Fin n → UInt8) :
    ((loadEach a is data).run mem).mem = mem := by
  induction is generalizing data with
  | nil => rfl
  | cons i is ih => exact ih _

theorem loadEach_touched (a : Int) (mem : Mem) (is : List (Fin n)) (data : Fin n → UInt8) :
    ((loadEach a is data).run mem).touched = is.map fun i => a + (i.val : Int) := by
  induction is generalizing data with
  | nil => rfl
  | cons i is ih => exact congrArg (List.cons (a + i.val)) (ih _)

theorem storeEach_mem (a : Int) (mem : Mem) (is : List (Fin n)) (data : Fin n → UInt8) :
    ((storeEach a data is).run mem).mem =
      is.foldl (fun m i => storeByte m (a + i.val) (data i)) mem := by
  induction is generalizing mem with
  | nil => rfl
  | cons i is ih => exact ih _

theorem storeEach_touched (a : Int) (mem : Mem) (is : List (Fin n)) (data : Fin n → UInt8) :
    ((storeEach a data is).run mem).touched = is.map fun i => a + (i.val : Int) := by
  induction is generalizing mem with
  | nil => rfl
  | cons i is ih => exact congrArg (List.cons (a + i.val)) (ih _)

/-- A loop that loads, or stores, the `n` bytes from `a` upwards. -/
def loadBlock (n : Nat) (a : Int) : Traced (Fin n → UInt8) :=
  loadEach a (List.finRange n) fun _ => 0

def storeBlock (a : Int) (data : Fin n → UInt8) : Traced Unit :=
  storeEach a data (List.finRange n)

@[simp] theorem run_loadBlock (n : Nat) (a : Int) (mem : Mem) :
    (loadBlock n a).run mem =
      ⟨fun i => mem (a + i.val), mem, (List.finRange n).map fun i => a + (i.val : Int)⟩ := by
  have value : ((loadBlock n a).run mem).value = fun i => mem (a + i.val) := by
    funext j
    rw [loadBlock, loadEach_value, if_pos (List.mem_finRange j)]
  have same : ((loadBlock n a).run mem).mem = mem := loadEach_mem a mem _ _
  have touched := loadEach_touched a mem (List.finRange n) fun _ => 0
  rw [← value, ← touched]
  exact congrArg (Outcome.mk _ · _) same

@[simp] theorem run_storeBlock (a : Int) (data : Fin n → UInt8) (mem : Mem) :
    (storeBlock a data).run mem =
      ⟨(), storeBytes mem a data, (List.finRange n).map fun i => a + (i.val : Int)⟩ := by
  have stored : ((storeBlock a data).run mem).mem = storeBytes mem a data := storeEach_mem a mem _ data
  have touched := storeEach_touched a mem (List.finRange n) data
  rw [← stored, ← touched]
  rfl

/-- Every address lies in `[low, high]`. -/
def Within (low high : Int) (touched : List Int) : Prop := ∀ a ∈ touched, low ≤ a ∧ a ≤ high

/-- The addresses lie in `[low, high]` and the highest is one of them. -/
structure Reaches (low high : Int) (touched : List Int) : Prop where
  within : Within low high touched
  last : high ∈ touched

theorem Within.mono {low high top : Int} {touched : List Int} (h : Within low high touched)
    (above : high ≤ top) : Within low top touched := by
  intro a ha
  have := h a ha
  omega

theorem Within.append {low high : Int} {first second : List Int} (h : Within low high first)
    (k : Within low high second) : Within low high (first ++ second) := by
  intro a ha
  rcases List.mem_append.mp ha with ha | ha
  · exact h a ha
  · exact k a ha

theorem Reaches.after {low high : Int} {first second : List Int} (k : Reaches low high second)
    (h : Within low high first) : Reaches low high (first ++ second) :=
  ⟨h.append k.within, List.mem_append_right first k.last⟩

/-- Accesses that span a range stay below an end exactly when the last one does. -/
theorem Reaches.below_iff {low high bottom top : Int} {touched : List Int}
    (h : Reaches low high touched) (above : bottom ≤ low) :
    (∀ a ∈ touched, bottom ≤ a ∧ a < top) ↔ high < top := by
  constructor
  · intro all
    exact (all high h.last).2
  · intro fits a ha
    have := h.within a ha
    omega

end AccessLog
