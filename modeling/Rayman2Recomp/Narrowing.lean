import Rayman2Recomp.PendingMatrices
import Rayman2Recomp.Truncation
import Mathlib.Algebra.Order.Ring.Rat
import Mathlib.Data.Rat.Floor

open ByteMemory Truncation

namespace Rayman2Recomp

/-- The guard on a product: the raw element is in units of 1/65536. -/
def ProductFits (r : Int) (k : ℚ) : Prop := -32768 < r * k / 65536 ∧ r * k / 65536 < 32768

instance (r : Int) (k : ℚ) : Decidable (ProductFits r k) := inferInstanceAs (Decidable (_ ∧ _))

/-- The product of an element and a factor with exact arithmetic where the source has `double`. -/
def exactNarrowed (raw : BitVec 32) (k : ℚ) : Option (BitVec 32) :=
  let narrowed := (raw.toInt : ℚ) / 65536 * k
  if narrowed > -32768 ∧ narrowed < 32768 then
    some (BitVec.ofInt 32 (truncate (narrowed * 65536)))
  else none

theorem exactNarrowed_eq (raw : BitVec 32) (k : ℚ) :
    exactNarrowed raw k =
      if ProductFits raw.toInt k then some (BitVec.ofInt 32 (truncate (raw.toInt * k))) else none := by
  have product : (raw.toInt : ℚ) / 65536 * k = raw.toInt * k / 65536 := by ring
  have scaled : (raw.toInt : ℚ) * k / 65536 * 65536 = raw.toInt * k := by
    rw [div_mul_cancel₀ _ (by norm_num)]
  unfold exactNarrowed ProductFits
  simp only [product, scaled]
  rfl

theorem exactNarrowed_isSome (raw : BitVec 32) (k : ℚ) :
    (exactNarrowed raw k).isSome = true ↔ ProductFits raw.toInt k := by
  rw [exactNarrowed_eq]
  split
  next fits => exact iff_of_true rfl fits
  next out => exact iff_of_false Bool.false_ne_true out

theorem exactNarrowed_none (raw : BitVec 32) (k : ℚ) :
    exactNarrowed raw k = none ↔ ¬ProductFits raw.toInt k := by
  rw [← exactNarrowed_isSome, Option.not_isSome_iff_eq_none]

/-- A product in range has an integer part that a signed word holds. -/
theorem ProductFits.word {r : Int} {k : ℚ} (fits : ProductFits r k) :
    -2 ^ 31 < truncate (r * k) ∧ truncate (r * k) < 2 ^ 31 := by
  obtain ⟨low, high⟩ := fits
  refine truncate_between (by decide) ?_ ?_
  · rw [lt_div_iff₀ (by norm_num)] at low
    norm_num at low ⊢
    exact low
  · rw [div_lt_iff₀ (by norm_num)] at high
    norm_num at high ⊢
    exact high

theorem ofInt_toInt {n : Int} (low : -2 ^ 31 ≤ n) (high : n < 2 ^ 31) :
    (BitVec.ofInt 32 n).toInt = n := by
  rw [BitVec.toInt_ofInt]
  exact Int.bmod_eq_of_le (by omega) (by omega)

theorem exactNarrowed_same (raw : BitVec 32) (k : ℚ) :
    exactNarrowed raw k = some raw ↔
      ProductFits raw.toInt k ∧ truncate (raw.toInt * k) = raw.toInt := by
  rw [exactNarrowed_eq]
  split
  next fits =>
    obtain ⟨low, high⟩ := fits.word
    rw [Option.some.injEq, ← BitVec.toInt_inj, ofInt_toInt (le_of_lt low) high]
    exact (and_iff_right fits).symm
  next out => exact iff_of_false (by simp) fun both => out both.1

/-- The hooks with exact products. -/
def FovSettings.exact (e : FovSettings ℚ) : FovSettings ℚ := { e with narrowed := exactNarrowed }

theorem FovSettings.exact_narrowed (e : FovSettings ℚ) : e.exact.narrowed = exactNarrowed := rfl

section Exact

variable {e : FovSettings ℚ} {k : ℚ} {base off : Int} {m : Rdram}

theorem narrowElement_fits (fits : ProductFits (element m base off).toInt k) :
    (element (narrowElement e.exact k base m off) base off).toInt =
      truncate ((element m base off).toInt * k) := by
  obtain ⟨low, high⟩ := fits.word
  have stored : e.exact.narrowed (element m base off) k =
      some (BitVec.ofInt 32 (truncate ((element m base off).toInt * k))) := by
    rw [FovSettings.exact_narrowed, exactNarrowed_eq, if_pos fits]
  rw [element_narrowElement, stored, Option.getD_some, ofInt_toInt (le_of_lt low) high]

theorem narrowElement_skips (out : ¬ProductFits (element m base off).toInt k) :
    narrowElement e.exact k base m off = m := by
  have skipped : e.exact.narrowed (element m base off) k = none := by
    rw [FovSettings.exact_narrowed, exactNarrowed_eq, if_neg out]
  rw [narrowElement, skipped]

/-- Narrowing an element stores its truncated product when that is in range and leaves it alone
otherwise; an element that was divided by the factor comes back, short by no more than it. -/
theorem narrowing_restores (e : FovSettings ℚ) (k : ℚ) (base off : Int) (m : Rdram) :
    let r := (element m base off).toInt
    let after := narrowElement e.exact k base m off
    let s := (element after base off).toInt
    (ProductFits r k →
      -2 ^ 31 ≤ truncate (r * k) ∧ truncate (r * k) < 2 ^ 31 ∧ s = truncate (r * k)) ∧
    (¬ProductFits r k →
      memH after off base = memH m off base ∧ memH after (32 + off) base = memH m (32 + off) base) ∧
    ∀ c : ℚ, 0 ≤ c → 1 ≤ k → r = truncate (65536 * c / k) → ProductFits r k →
      0 ≤ truncate (65536 * c) - s ∧ truncate (65536 * c) - s ≤ ⌈k⌉ := by
  intro r after s
  refine ⟨fun fits => ?_, fun out => ?_, fun c nonneg grows divided fits => ?_⟩
  · obtain ⟨low, high⟩ := fits.word
    exact ⟨le_of_lt low, high, narrowElement_fits fits⟩
  · have same : after = m := narrowElement_skips out
    rw [same]
    exact ⟨rfl, rfl⟩
  · have stored : s = truncate (r * k) := narrowElement_fits fits
    have scaled : (0 : ℚ) ≤ 65536 * c := mul_nonneg (by norm_num) nonneg
    rw [stored, divided]
    exact truncate_round_trip scaled grows

example : exactNarrowed 0xFFFE8000 (3 / 2) = some 0xFFFDC000 := by decide +kernel

end Exact

variable {K : Type}

/-- Both elements of an entry's matrix became their products, or both stayed. -/
def AllOrNothing (e : FovSettings K) (entry : Pending K) (m after : Rdram) : Prop :=
  (∀ off ∈ elementOffsets, e.narrowed (element m entry.address.toInt off) entry.factor =
    some (element after entry.address.toInt off)) ∨
  ∀ off ∈ elementOffsets,
    element after entry.address.toInt off = element m entry.address.toInt off

/-- Both products are in range or neither is, or the one that is changes nothing. -/
def InStep (e : FovSettings K) (entry : Pending K) (m : Rdram) : Prop :=
  let horizontal := element m entry.address.toInt 0
  let vertical := element m entry.address.toInt 10
  (e.narrowed horizontal entry.factor).isSome = (e.narrowed vertical entry.factor).isSome ∨
    (e.narrowed horizontal entry.factor = none ∧
      e.narrowed vertical entry.factor = some vertical) ∨
    (e.narrowed horizontal entry.factor = some horizontal ∧
      e.narrowed vertical entry.factor = none)

/-- With exact products: both are in range or neither is, or the one that is truncates to the
element itself. -/
theorem inStep_exact_iff (e : FovSettings ℚ) (entry : Pending ℚ) (m : Rdram) :
    let h := (element m entry.address.toInt 0).toInt
    let v := (element m entry.address.toInt 10).toInt
    let k := entry.factor
    InStep e.exact entry m ↔
      (ProductFits h k ↔ ProductFits v k) ∨
        (¬ProductFits h k ∧ ProductFits v k ∧ truncate (v * k) = v) ∨
        ((ProductFits h k ∧ truncate (h * k) = h) ∧ ¬ProductFits v k) := by
  intro h v k
  have parity : (exactNarrowed (element m entry.address.toInt 0) k).isSome =
      (exactNarrowed (element m entry.address.toInt 10) k).isSome ↔
      (ProductFits h k ↔ ProductFits v k) := by
    rw [Bool.eq_iff_iff, exactNarrowed_isSome, exactNarrowed_isSome]
  unfold InStep
  dsimp only
  rw [FovSettings.exact_narrowed, parity, exactNarrowed_none, exactNarrowed_none,
    exactNarrowed_same, exactNarrowed_same]

theorem both_or_neither_iff {W : Type} (x y : Option W) (a d : W) :
    ((x = some (x.getD a) ∧ y = some (y.getD d)) ∨ (x.getD a = a ∧ y.getD d = d)) ↔
      (x.isSome = y.isSome ∨ (x = none ∧ y = some d) ∨ (x = some a ∧ y = none)) := by
  cases x with
  | none =>
    cases y with
    | none => simp
    | some y => simp
  | some x =>
    cases y with
    | none => simp
    | some y => simp

theorem allOrNothing_iff (e : FovSettings K) (entry : Pending K) (m : Rdram) :
    AllOrNothing e entry m (narrowMatrix e m entry) ↔ InStep e entry m := by
  have horizontal := element_narrowMatrix_same e m entry (by decide : (0 : Int) ∈ elementOffsets)
  have vertical := element_narrowMatrix_same e m entry (by decide : (10 : Int) ∈ elementOffsets)
  have pair : ∀ P : Int → Prop, (∀ off ∈ elementOffsets, P off) ↔ P 0 ∧ P 10 := by
    simp [elementOffsets]
  unfold AllOrNothing
  rw [pair, pair, horizontal, vertical]
  exact both_or_neither_iff _ _ _ _

/-- Each entry of a pass finds the matrices as the entries before it left them, and corrects its
own all or nothing exactly when its two products are in step. -/
theorem narrow_all_or_nothing_iff (e : FovSettings K) (v : ViewState K) {before after : List (Pending K)}
    {entry : Pending K} (pending : v.pending = before ++ entry :: after)
    (narrowing : e.narrowing = true) (known : e.rdramKnown = true) :
    let m := before.foldl (narrowMatrix e) v.rdram
    (narrowPendingProjections e v).rdram =
        after.foldl (narrowMatrix e) (narrowMatrix e m entry) ∧
      (AllOrNothing e entry m (narrowMatrix e m entry) ↔ InStep e entry m) := by
  refine ⟨?_, allOrNothing_iff e entry _⟩
  simp only [narrowPendingProjections, narrowing, known, Bool.not_true, Bool.false_eq_true,
    if_false, pending, List.foldl_append, List.foldl_cons]

/-- A matrix whose horizontal scale is 16384 and whose vertical scale is 1. -/
def lopsided : Rdram := fun a => if a = 0 then 0x40 else if a = 11 then 0x01 else 0x00

def plainSettings : FovSettings ℚ :=
  ⟨true, true, true, fun _ => true, id, fun _ _ => 1, 1, exactNarrowed, fun _ => none⟩

def lopsidedEntry : Pending ℚ := ⟨0, 5 / 2⟩

def lopsidedView : ViewState ℚ := ⟨lopsided, 0, 1, 0, 1, [] ++ lopsidedEntry :: []⟩

theorem narrow_all_or_nothing_lopsided :
    let m := ([] : List (Pending ℚ)).foldl (narrowMatrix plainSettings) lopsidedView.rdram
    (narrowPendingProjections plainSettings lopsidedView).rdram =
        [].foldl (narrowMatrix plainSettings) (narrowMatrix plainSettings m lopsidedEntry) ∧
      (AllOrNothing plainSettings lopsidedEntry m (narrowMatrix plainSettings m lopsidedEntry) ↔
        InStep plainSettings lopsidedEntry m) :=
  narrow_all_or_nothing_iff plainSettings lopsidedView rfl rfl rfl

/-- Two and a half times as large, the horizontal scale leaves the range and the vertical one does
not. -/
theorem narrow_half_applied :
    ¬AllOrNothing plainSettings lopsidedEntry lopsided
      (narrowMatrix plainSettings lopsided lopsidedEntry) := by
  rw [allOrNothing_iff]
  unfold InStep
  decide +kernel

end Rayman2Recomp
