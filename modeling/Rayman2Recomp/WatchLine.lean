import Rayman2Recomp.CNumbers
import Rayman2Recomp.DemoScan
import Rayman2Recomp.TextBuffer
import Mathlib.Algebra.Group.Action.Defs
import Mathlib.Algebra.Order.BigOperators.Group.List
import Mathlib.Algebra.Order.Ring.Nat

open CNumbers TextBuffer

namespace Rayman2Recomp

def kLineSize : Nat := 512

/-- `SIZE_MAX + 1` of the 64-bit host. -/
def kSizeWrap : Nat := 2 ^ 64

/-- The loop over `RAYMAN2_WATCH`, which ends at eight addresses or where no number stands. -/
def parseWatch (ulongMax : Nat) : Nat → Text → List UInt32
  | 0, _ => []
  | _, [] => []
  | slots + 1, p =>
    match strtoul ulongMax p with
    | none => []
    | some (value, rest) =>
      UInt32.ofNat value :: parseWatch ulongMax slots (if rest.head? = some 0x2C then rest.tail else rest)

def watchAddresses (ulongMax : Nat) (env : Option Text) : List UInt32 :=
  match env with
  | none => []
  | some text => parseWatch ulongMax 8 text

/-- `"  [%08X] %08X %11d %12.3f"` -/
def watchText (nanText : UInt32 → Text) (address raw : UInt32) : Text :=
  [0x20, 0x20, 0x5B] ++ (upperHex address.toNat).leftpad 8 0x30 ++ [0x5D, 0x20] ++
    (upperHex raw.toNat).leftpad 8 0x30 ++ [0x20] ++ (decimalInt raw.toInt32.toInt).leftpad 11 0x20 ++
    [0x20] ++ (fixedThree nanText raw).leftpad 12 0x20

/-- The loop over the addresses; one that is not in RDRAM is passed over. -/
def watchLoop (nanText : UInt32 → Text) (ram : HostRam) (cells : Cells) (used : Nat) :
    List UInt32 → Cells × List PutCall
  | [] => (cells, [])
  | address :: rest =>
    let offset := address - 0x80000000
    if kRamSize ≤ offset.toNat then watchLoop nanText ram cells used rest
    else
      let raw := rawWord ram offset.toNat
      let text := watchText nanText address raw
      let size := room kLineSize kSizeWrap used
      let later := watchLoop nanText ram (put cells used size text) (used + text.length) rest
      (later.1, ⟨used, size, text⟩ :: later.2)

/-- `line` as `poll_watch` prints it and the calls that wrote it, or nothing when it returns
before. -/
def pollWatch (ulongMax : Nat) (nanText : UInt32 → Text) (env : Option Text) (ram : HostRam) :
    Option (Cells × List PutCall) :=
  if watchAddresses ulongMax env = [] then none
  else some (watchLoop nanText ram (fun _ => none) 0 (watchAddresses ulongMax env))

/-- No size argument wraps, nothing is written past `line`, and what is printed is a string. -/
def WatchSafe (printed : Option (Cells × List PutCall)) : Prop :=
  ∀ line ∈ printed, (∀ call ∈ line.2, call.Safe kLineSize) ∧ Terminated line.1 kLineSize

def inRdram (address : UInt32) : Bool := (address - 0x80000000).toNat < kRamSize

/-- The characters one watched word takes: 46 unless its value as a float is wide. -/
def watchWidth (nanText : UInt32 → Text) (ram : HostRam) (address : UInt32) : Nat :=
  34 + max 12 (fixedThree nanText (rawWord ram (address - 0x80000000).toNat)).length

theorem paddedHex_length (word : UInt32) : ((upperHex word.toNat).leftpad 8 0x30).length = 8 := by
  have short := (upperHex_length_le (n := word.toNat) (k := 8) (by decide)).mpr word.toNat_lt
  rw [List.length_leftpad]
  omega

theorem paddedInt_length (word : UInt32) :
    ((decimalInt word.toInt32.toInt).leftpad 11 0x20).length = 11 := by
  have low := Int32.le_toInt word.toInt32
  have high := Int32.toInt_lt word.toInt32
  have digits : (decimal word.toInt32.toInt.natAbs).length ≤ 10 :=
    (decimal_length_le (by decide)).mpr (by omega)
  rw [List.length_leftpad, decimalInt, List.length_append]
  split
  · rw [List.length_singleton]
    omega
  · rw [List.length_nil]
    omega

theorem watchText_length (nanText : UInt32 → Text) (ram : HostRam) (address : UInt32) :
    (watchText nanText address (rawWord ram (address - 0x80000000).toNat)).length =
      watchWidth nanText ram address := by
  have float : ((fixedThree nanText (rawWord ram (address - 0x80000000).toNat)).leftpad 12
      0x20).length = max 12 (fixedThree nanText (rawWord ram (address - 0x80000000).toNat)).length :=
    List.length_leftpad
  simp only [watchText, List.length_append, paddedHex_length, paddedInt_length, List.length_cons,
    List.length_nil]
  unfold watchWidth
  omega

theorem watchLoop_eq (nanText : UInt32 → Text) (ram : HostRam) (cells : Cells) (used : Nat)
    (addresses : List UInt32) :
    watchLoop nanText ram cells used addresses = putAll kLineSize kSizeWrap cells used
      ((addresses.filter inRdram).map fun address =>
        watchText nanText address (rawWord ram (address - 0x80000000).toNat)) := by
  induction addresses generalizing cells used with
  | nil => rfl
  | cons address rest ih =>
    by_cases outside : kRamSize ≤ (address - 0x80000000).toNat
    · rw [watchLoop, if_pos outside, ih, List.filter_cons_of_neg]
      simpa [inRdram] using outside
    · have inside : inRdram address = true := by simpa [inRdram] using outside
      rw [watchLoop, if_neg outside, List.filter_cons_of_pos inside, List.map_cons, putAll]
      simp only [ih]

/-- The words that count are those at addresses in RDRAM, and the last of them may be cut. -/
theorem watchLoop_safe_iff (nanText : UInt32 → Text) (ram : HostRam) (addresses : List UInt32) :
    ((∀ call ∈ (watchLoop nanText ram (fun _ => none) 0 addresses).2, call.Safe kLineSize) ∧
        Terminated (watchLoop nanText ram (fun _ => none) 0 addresses).1 kLineSize) ↔
      addresses.filter inRdram ≠ [] ∧
        ((addresses.filter inRdram).dropLast.map (watchWidth nanText ram)).sum ≤ kLineSize := by
  have string := putAll_string_iff
    ((addresses.filter inRdram).map fun address =>
      watchText nanText address (rawWord ram (address - 0x80000000).toNat))
    (by decide : kLineSize < kSizeWrap) (by decide)
  have widths : List.length ∘ (fun address =>
      watchText nanText address (rawWord ram (address - 0x80000000).toNat)) =
      watchWidth nanText ram := funext (watchText_length nanText ram)
  rw [← List.map_dropLast, List.map_map, widths, ne_eq, List.map_eq_nil_iff] at string
  rw [watchLoop_eq]
  exact string

/-- `poll_watch` stays inside `line` and prints a string exactly when it prints nothing, or some
address is in RDRAM and all such words but the last take at most the 512 characters. -/
theorem pollWatch_safe_iff (ulongMax : Nat) (nanText : UInt32 → Text) (env : Option Text)
    (ram : HostRam) :
    WatchSafe (pollWatch ulongMax nanText env ram) ↔
      watchAddresses ulongMax env = [] ∨
        ((watchAddresses ulongMax env).filter inRdram ≠ [] ∧
          ((((watchAddresses ulongMax env).filter inRdram).dropLast).map
            (watchWidth nanText ram)).sum ≤ kLineSize) := by
  unfold WatchSafe pollWatch
  by_cases nothing : watchAddresses ulongMax env = []
  · simp [nothing]
  · rw [if_neg nothing, or_iff_right nothing]
    simp only [Option.mem_def, Option.some.injEq, forall_eq']
    exact watchLoop_safe_iff nanText ram (watchAddresses ulongMax env)

/-- Seven words at most never fill the line: what is put before the last is short enough. -/
theorem short_watch_fits (nanText : UInt32 → Text) (ram : HostRam) {addresses : List UInt32}
    (nan : ∀ word, (nanText word).length ≤ 44) (few : addresses.length ≤ 7) :
    (addresses.dropLast.map (watchWidth nanText ram)).sum ≤ kLineSize := by
  have width : ∀ w ∈ addresses.dropLast.map (watchWidth nanText ram), w ≤ 78 := by
    intro w hw
    obtain ⟨address, -, rfl⟩ := List.mem_map.mp hw
    have := fixedThree_length_le nanText (nan (rawWord ram (address - 0x80000000).toNat))
    unfold watchWidth
    omega
  have total := List.sum_le_card_nsmul _ 78 width
  rw [List.length_map, List.length_dropLast, smul_eq_mul] at total
  unfold kLineSize
  omega

/-- Words that are all the most negative float: 78 characters each. -/
def lowestFloats : HostRam := fun i => if i % 4 = 2 then 0x7F else 0xFF

theorem lowestFloats_width (nanText : UInt32 → Text) :
    watchWidth nanText lowestFloats 0x80000000 = 78 := by
  have word : rawWord lowestFloats (0x80000000 - 0x80000000 : UInt32).toNat = 0xFF7FFFFF := by
    decide
  have finite : biasedExponent 0xFF7FFFFF ≠ 255 := by decide
  have digits : (decimal (singleThousandths 0xFF7FFFFF / 1000)).length = 38 + 1 :=
    decimal_length (by decide) (by decide) (by decide)
  have minus : (signText 0xFF7FFFFF).length = 1 := rfl
  rw [watchWidth, word, fixedThree_length finite, minus, digits]
  decide

def eightTimes (address : List Char) : Text :=
  charBytes (List.replicate 7 (address ++ [',']) ++ [address]).flatten

/-- Eight watched words that are wide floats send the last call past the end of the line, and a
list with no address in RDRAM prints what nobody wrote. -/
theorem watch_leaves_line :
    ¬WatchSafe (pollWatch 0xFFFFFFFF (fun _ => [0x6E, 0x61, 0x6E])
        (some (eightTimes ['0', 'x', '8', '0', '0', '0', '0', '0', '0', '0'])) lowestFloats) ∧
      ¬WatchSafe (pollWatch 0xFFFFFFFF (fun _ => [0x6E, 0x61, 0x6E]) (some (charBytes ['1']))
        lowestFloats) := by
  have eight : watchAddresses 0xFFFFFFFF (some (eightTimes
      ['0', 'x', '8', '0', '0', '0', '0', '0', '0', '0'])) = List.replicate 8 0x80000000 := by decide
  have low : watchAddresses 0xFFFFFFFF (some (charBytes ['1'])) = [1] := by decide
  constructor
  · intro safe
    unfold pollWatch at safe
    rw [eight, if_neg (by decide)] at safe
    have fits := ((watchLoop_safe_iff _ _ _).mp (safe _ rfl)).2
    have kept : ((List.replicate 8 (0x80000000 : UInt32)).filter inRdram).dropLast =
        List.replicate 7 0x80000000 := by decide
    rw [kept, List.map_replicate, lowestFloats_width] at fits
    exact absurd fits (by decide)
  · intro safe
    unfold pollWatch at safe
    rw [low, if_neg (by decide)] at safe
    exact absurd rfl ((watchLoop_safe_iff _ _ _).mp (safe _ rfl)).1

end Rayman2Recomp
