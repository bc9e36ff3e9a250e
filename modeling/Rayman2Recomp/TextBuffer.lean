import Mathlib.Algebra.Order.BigOperators.Group.List
import Mathlib.Algebra.Order.Ring.Nat
import Mathlib.Data.List.Basic

namespace TextBuffer

/-- The cells of a local array and of what lies past it; none holds anything until written. -/
abbrev Cells := Nat → Option UInt8

/-- How many characters of a text fit before the terminator. -/
def stored (size : Nat) (text : List UInt8) : Nat := min text.length (size - 1)

/-- What `snprintf` leaves at `start` when it is told of `size` bytes. -/
def put (cells : Cells) (start size : Nat) (text : List UInt8) : Cells := fun i =>
  if size = 0 ∨ i < start then cells i
  else if i < start + stored size text then text[i - start]?
  else if i = start + stored size text then some 0
  else cells i

/-- The cells such a call writes. -/
def written (start size : Nat) (text : List UInt8) : List Nat :=
  if size = 0 then [] else List.range' start (stored size text + 1)

/-- A `size_t` difference. -/
def room (capacity wrap used : Nat) : Nat := (capacity + wrap - used) % wrap

structure PutCall where
  used : Nat
  size : Nat
  text : List UInt8

/-- Texts put one after another, each where the lengths returned so far end. -/
def putAll (capacity wrap : Nat) (cells : Cells) (used : Nat) :
    List (List UInt8) → Cells × List PutCall
  | [] => (cells, [])
  | text :: texts =>
    let size := room capacity wrap used
    let later := putAll capacity wrap (put cells used size text) (used + text.length) texts
    (later.1, ⟨used, size, text⟩ :: later.2)

/-- A call whose size argument is the room there is, and that writes nothing past the array. -/
structure PutCall.Safe (capacity : Nat) (call : PutCall) : Prop where
  used : call.used ≤ capacity
  size : call.size = capacity - call.used
  inside : ∀ i ∈ written call.used call.size call.text, i < capacity

/-- A string stands at the start of the array: written characters, then a terminator. -/
def Terminated (cells : Cells) (capacity : Nat) : Prop :=
  ∃ n < capacity, cells n = some 0 ∧ ∀ i < n, (cells i).isSome

/-- What the array holds after `used` characters were asked for. -/
def Filled (capacity : Nat) (cells : Cells) (used : Nat) : Prop :=
  cells (min used (capacity - 1)) = some 0 ∧ ∀ i < min used (capacity - 1), (cells i).isSome

variable {capacity wrap used : Nat} {cells : Cells} {text : List UInt8} {texts : List (List UInt8)}

theorem room_eq (fits : used ≤ capacity) (small : capacity < wrap) :
    room capacity wrap used = capacity - used := by
  have split : capacity + wrap - used = (capacity - used) + wrap := by omega
  rw [room, split, Nat.add_mod_right, Nat.mod_eq_of_lt (by omega)]

theorem safe_iff (small : capacity < wrap) :
    (PutCall.mk used (room capacity wrap used) text).Safe capacity ↔ used ≤ capacity := by
  refine ⟨fun safe => safe.used, fun fits => ⟨fits, room_eq fits small, fun i hi => ?_⟩⟩
  simp only [room_eq fits small, written] at hi
  split at hi
  · exact absurd hi List.not_mem_nil
  · have := List.mem_range'_1.mp hi
    unfold stored at this
    omega

theorem Filled.terminated (filled : Filled capacity cells used) (positive : 0 < capacity) :
    Terminated cells capacity :=
  ⟨min used (capacity - 1), by omega, filled.1, filled.2⟩

theorem put_before {start size i : Nat} (before : i < start) : put cells start size text i = cells i :=
  if_pos (Or.inr before)

theorem put_text {start size i : Nat} (told : size ≠ 0) (after : start ≤ i)
    (inside : i < start + stored size text) : put cells start size text i = text[i - start]? := by
  rw [put, if_neg (by omega), if_pos inside]

theorem put_end {start size : Nat} (told : size ≠ 0) :
    put cells start size text (start + stored size text) = some 0 := by
  rw [put, if_neg (by omega), if_neg (by omega), if_pos rfl]

theorem put_full {start : Nat} : put cells start 0 text = cells :=
  funext fun _ => if_pos (Or.inl rfl)

/-- A text put behind written characters leaves a string, cut short or whole. -/
theorem filled_put (within : used < capacity) (before : ∀ i < used, (cells i).isSome) :
    Filled capacity (put cells used (capacity - used) text) (used + text.length) := by
  have told : capacity - used ≠ 0 := by omega
  have place : min (used + text.length) (capacity - 1) = used + stored (capacity - used) text := by
    unfold stored
    omega
  unfold Filled
  rw [place]
  refine ⟨put_end told, fun i hi => ?_⟩
  by_cases earlier : i < used
  · rw [put_before earlier]
    exact before i earlier
  · have inside : i - used < text.length := by
      unfold stored at hi
      omega
    rw [put_text told (by omega) hi, List.getElem?_eq_getElem inside]
    rfl

/-- One more text keeps what stands before it, up to the last cell of the array. -/
theorem Filled.put (filled : Filled capacity cells used) (fits : used ≤ capacity) :
    Filled capacity (put cells used (capacity - used) text) (used + text.length) := by
  rcases Nat.lt_or_eq_of_le fits with within | rfl
  · refine filled_put within fun i hi => filled.2 i ?_
    omega
  · have place : min (used + text.length) (used - 1) = min used (used - 1) := by omega
    rw [Nat.sub_self, put_full]
    unfold Filled
    rw [place]
    exact filled

/-- Every call is safe exactly when all texts but the last fit together. -/
theorem putAll_safe_iff (small : capacity < wrap) :
    (∀ call ∈ (putAll capacity wrap cells used (text :: texts)).2, call.Safe capacity) ↔
      used + (((text :: texts).dropLast).map List.length).sum ≤ capacity := by
  induction texts generalizing text used cells with
  | nil => simp [putAll, safe_iff small]
  | cons next texts ih =>
    rw [putAll, List.forall_mem_cons, safe_iff small, ih, List.dropLast_cons_cons, List.map_cons,
      List.sum_cons]
    omega

theorem putAll_filled (small : capacity < wrap) (filled : Filled capacity cells used)
    (safe : ∀ call ∈ (putAll capacity wrap cells used texts).2, call.Safe capacity) :
    ∃ total, Filled capacity (putAll capacity wrap cells used texts).1 total := by
  induction texts generalizing used cells with
  | nil => exact ⟨used, filled⟩
  | cons text texts ih =>
    rw [putAll, List.forall_mem_cons] at safe
    have fits := safe.1.used
    rw [putAll, room_eq fits small] at *
    exact ih (filled.put fits) safe.2

/-- From an array nobody wrote: the calls are safe and leave a string exactly when there is a text
at all and all but the last fit together. -/
theorem putAll_string_iff (texts : List (List UInt8)) (small : capacity < wrap)
    (positive : 0 < capacity) :
    ((∀ call ∈ (putAll capacity wrap (fun _ => none) 0 texts).2, call.Safe capacity) ∧
        Terminated (putAll capacity wrap (fun _ => none) 0 texts).1 capacity) ↔
      texts ≠ [] ∧ (texts.dropLast.map List.length).sum ≤ capacity := by
  cases texts with
  | nil => simp [putAll, Terminated]
  | cons text texts =>
    rw [putAll_safe_iff small, Nat.zero_add]
    refine ⟨fun h => ⟨List.cons_ne_nil _ _, h.1⟩, fun h => ⟨h.2, ?_⟩⟩
    have safe : ∀ call ∈ (putAll capacity wrap (fun _ => none) 0 (text :: texts)).2,
        call.Safe capacity := (putAll_safe_iff small).mpr (by rw [Nat.zero_add]; exact h.2)
    rw [putAll, List.forall_mem_cons] at safe
    rw [putAll, room_eq (Nat.zero_le _) small] at *
    obtain ⟨total, filled⟩ := putAll_filled small
      (filled_put positive fun i hi => absurd hi (Nat.not_lt_zero i)) safe.2
    exact filled.terminated positive

end TextBuffer
