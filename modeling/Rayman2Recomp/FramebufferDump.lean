import Rayman2Recomp.Disk
import Rayman2Recomp.HostRam
import Mathlib.Data.Nat.Bitwise

open Disk

namespace Rayman2Recomp

structure ViRegs where
  viStatus : UInt32
  viOrigin : UInt32
  viWidth : UInt32
  viVStart : UInt32
  viYScale : UInt32

/-- The height the vertical start and end and the scale give. -/
def ViRegs.derivedHeight (regs : ViRegs) : UInt32 :=
  let yScale := regs.viYScale &&& 0xFFF
  let vStart := (regs.viVStart >>> 16) &&& 0x3FF
  let vEnd := regs.viVStart &&& 0x3FF
  if vEnd > vStart && yScale != 0 then ((vEnd - vStart) >>> 1) * yScale / 1024 else 0

def ViRegs.height (regs : ViRegs) : UInt32 :=
  if regs.derivedHeight == 0 || regs.derivedHeight > 480 then 240 else regs.derivedHeight

structure Dump where
  width : UInt32
  bytesPerPixel : UInt32
  origin : UInt32
  height : UInt32
  regs : ViRegs
  bytes : Bytes

def hexWord (word : UInt32) : String :=
  let digits := (Nat.toDigits 16 word.toNat).map Char.toUpper
  String.ofList (['0', 'x'] ++ List.replicate (8 - digits.length) '0' ++ digits)

def Dump.description (d : Dump) : String :=
  toString d.width ++ " wide, " ++ toString d.bytesPerPixel ++ " bytes per pixel, from RDRAM " ++
    hexWord d.origin ++ ". Height " ++ toString d.height ++
    " is DERIVED, not read -- check it against the raw registers: " ++
    "VI_STATUS=" ++ hexWord d.regs.viStatus ++ " VI_WIDTH=" ++ hexWord d.regs.viWidth ++
    " VI_V_START=" ++ hexWord d.regs.viVStart ++ " VI_Y_SCALE=" ++ hexWord d.regs.viYScale ++
    " (the dump is width x that height, so the true height is also " ++
    "file size / (width x bytes per pixel))"

inductive DumpFile
  | unopened
  | full
  | good

/-- A capture that returns false leaves its description only. -/
def writeViFramebuffer (rdram : Option HostRam) (regs : Option ViRegs) (out : DumpFile) :
    Except String Dump :=
  match rdram, regs with
  | some rdram, some regs =>
    if regs.viOrigin == 0 then .error "no VI framebuffer (the game had not presented one)"
    else
      let origin := regs.viOrigin &&& 0x03FFFFFF
      let width := regs.viWidth &&& 0xFFF
      let pixelSize := regs.viStatus &&& 0x3
      let bytesPerPixel := if pixelSize == 3 then 4 else 2
      if width == 0 || pixelSize < 2 then .error "VI is blanked; nothing to dump"
      else
        let height := regs.height
        let bytes := width.toNat * height.toNat * bytesPerPixel.toNat
        let dump := ⟨width, bytesPerPixel, origin, height, regs,
          (List.range bytes).map fun i => rdram (origin.toNat + i)⟩
        match out with
        | .unopened => .error "could not open the dump file"
        | .full => .error dump.description
        | .good => .ok dump
  | _, _ => .error "no VI framebuffer (the game had not presented one)"

theorem and_low_bits (word : UInt32) (bits : Nat) (small : bits < 32) :
    (word &&& UInt32.ofNat (2 ^ bits - 1)).toNat = word.toNat % 2 ^ bits := by
  have power : 2 ^ bits < 2 ^ 32 := Nat.pow_lt_pow_right (by omega) small
  have fits : 2 ^ bits - 1 < UInt32.size := Nat.lt_of_le_of_lt (Nat.sub_le _ _) power
  rw [UInt32.toNat_and, UInt32.toNat_ofNat_of_lt' fits, Nat.and_two_pow_sub_one_eq_mod]

/-- The height the vertical registers ask for, in their own bits. -/
def ViRegs.lines (regs : ViRegs) : Nat :=
  (regs.viVStart.toNat % 1024 - regs.viVStart.toNat / 65536 % 1024) / 2 *
    (regs.viYScale.toNat % 4096) / 1024

theorem scaled_toNat {vStart vEnd yScale : UInt32} (ends : vEnd.toNat < 1024)
    (scale : yScale.toNat < 4096) :
    (if vEnd > vStart && yScale != 0 then ((vEnd - vStart) >>> 1) * yScale / 1024 else 0).toNat =
      (vEnd.toNat - vStart.toNat) / 2 * yScale.toNat / 1024 := by
  by_cases scans : vStart < vEnd ∧ yScale ≠ 0
  · obtain ⟨below, scaled⟩ := scans
    have order : vStart.toNat < vEnd.toNat := below
    have rows : ((vEnd - vStart) >>> 1).toNat = (vEnd.toNat - vStart.toNat) / 2 := by
      rw [UInt32.toNat_shiftRight, UInt32.toNat_sub_of_le _ _ (Nat.le_of_lt order)]
      rfl
    have product : (vEnd.toNat - vStart.toNat) / 2 * yScale.toNat ≤ 511 * 4095 :=
      Nat.mul_le_mul (by omega) (by omega)
    rw [if_pos (by simpa using ⟨below, scaled⟩), UInt32.toNat_div, UInt32.toNat_mul, rows,
      Nat.mod_eq_of_lt (by omega)]
    rfl
  · rw [if_neg (by simpa using scans)]
    rcases Classical.not_and_iff_not_or_not.mp scans with above | unscaled
    · have order : vEnd.toNat ≤ vStart.toNat := UInt32.not_lt.mp above
      have none_left : vEnd.toNat - vStart.toNat = 0 := by omega
      simp [none_left]
    · simp [not_not.mp unscaled]

theorem derivedHeight_toNat (regs : ViRegs) : regs.derivedHeight.toNat = regs.lines := by
  have scale : (regs.viYScale &&& 0xFFF).toNat = regs.viYScale.toNat % 4096 :=
    and_low_bits regs.viYScale 12 (by omega)
  have low : (regs.viVStart &&& 0x3FF).toNat = regs.viVStart.toNat % 1024 :=
    and_low_bits regs.viVStart 10 (by omega)
  have high : ((regs.viVStart >>> 16) &&& 0x3FF).toNat = regs.viVStart.toNat / 65536 % 1024 := by
    have shifted : (regs.viVStart >>> 16).toNat = regs.viVStart.toNat / 65536 := by
      rw [UInt32.toNat_shiftRight]
      exact Nat.shiftRight_eq_div_pow _ 16
    rw [← shifted]
    exact and_low_bits (regs.viVStart >>> 16) 10 (by omega)
  unfold ViRegs.derivedHeight ViRegs.lines
  dsimp only
  rw [scaled_toNat (by omega) (by omega), scale, low, high]

theorem height_toNat (regs : ViRegs) :
    regs.height.toNat = if regs.lines = 0 ∨ 480 < regs.lines then 240 else regs.lines := by
  have derived := derivedHeight_toNat regs
  have zero : regs.derivedHeight = 0 ↔ regs.lines = 0 := by
    rw [← UInt32.toNat_inj, derived]
    rfl
  have large : 480 < regs.derivedHeight ↔ 480 < regs.lines := by
    rw [UInt32.lt_iff_toNat_lt, derived]
    rfl
  unfold ViRegs.height
  by_cases out : regs.lines = 0 ∨ 480 < regs.lines
  · have refused : regs.derivedHeight = 0 ∨ 480 < regs.derivedHeight := by rwa [zero, large]
    rw [if_pos out, if_pos (by simpa using refused)]
    rfl
  · have kept : ¬ (regs.derivedHeight = 0 ∨ 480 < regs.derivedHeight) := by rwa [zero, large]
    rw [if_neg out, if_neg (by simpa using kept), derived]

theorem height_pos (regs : ViRegs) : 0 < regs.height.toNat := by
  rw [height_toNat]
  split <;> omega

theorem writeViFramebuffer_good {ram : HostRam} {regs : ViRegs} {dump : Dump}
    (half : regs.viStatus &&& 0x3 = 2)
    (dumped : writeViFramebuffer (some ram) (some regs) .good = .ok dump) :
    dump.origin.toNat = regs.viOrigin.toNat % 0x4000000 ∧
    dump.width.toNat = regs.viWidth.toNat % 0x1000 ∧ 0 < dump.width.toNat ∧
    dump.height = regs.height ∧
    dump.bytes = (List.range (dump.width.toNat * dump.height.toNat * 2)).map
      fun i => ram (dump.origin.toNat + i) := by
  unfold writeViFramebuffer at dumped
  dsimp only at dumped
  rw [half] at dumped
  split at dumped
  next => cases dumped
  split at dumped
  next => cases dumped
  next shown =>
    cases dumped
    have wide : ¬ (regs.viWidth &&& 0xFFF) = 0 := by simpa using shown
    refine ⟨and_low_bits regs.viOrigin 26 (by omega), and_low_bits regs.viWidth 12 (by omega),
      Nat.pos_of_ne_zero fun zero => wide (UInt32.toNat_inj.mp zero), rfl, rfl⟩

end Rayman2Recomp
