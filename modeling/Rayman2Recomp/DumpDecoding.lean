import Rayman2Recomp.FbToPng

open Disk

namespace Rayman2Recomp

/-- What the game drew is what the tool shows, for every dump of these registers. -/
def DecodesRight (ram : HostRam) (regs : ViRegs) : Prop :=
  ∀ dump, writeViFramebuffer (some ram) (some regs) .good = .ok dump →
    ∀ files src dst, files src = some dump.bytes →
      ∃ out, fbToPng files
          ⟨some src, some dst, some dump.width.toNat, some dump.height.toNat⟩ = .ok out ∧
        ∀ x y, x < dump.width.toNat → y < dump.height.toNat →
          out.png.pixel x y = some (rgb5551
            (gameHalf ram (dump.origin.toNat + 2 * (y * dump.width.toNat + x))))

theorem whole_words_iff (regs : ViRegs) :
    regs.viWidth.toNat % 0x1000 * regs.height.toNat * 2 % 4 = 0 ↔
      ¬ (regs.viWidth.toNat % 2 = 1 ∧ regs.lines % 2 = 1 ∧ regs.lines ≤ 480) := by
  have odd_lines : regs.height.toNat % 2 = 1 ↔ regs.lines % 2 = 1 ∧ regs.lines ≤ 480 := by
    rw [height_toNat]
    split <;> omega
  have odd_width : regs.viWidth.toNat % 0x1000 % 2 = 1 ↔ regs.viWidth.toNat % 2 = 1 := by omega
  have odd_pixels := Nat.odd_mul (m := regs.viWidth.toNat % 0x1000) (n := regs.height.toNat)
  rw [Nat.odd_iff, Nat.odd_iff, Nat.odd_iff, odd_lines, odd_width] at odd_pixels
  rw [← odd_pixels]
  omega

theorem red_eq (high low : UInt8) :
    (rgb5551 (256 * high.toNat + low.toNat)).red = widen (high.toNat / 8) := by
  have high_byte := high.toNat_lt
  have low_byte := low.toNat_lt
  have bits : (256 * high.toNat + low.toNat) / 2048 % 32 = high.toNat / 8 := by omega
  rw [rgb5551, bits]

section Dumps

variable {ram : HostRam} {origin need : Nat} {un : Bytes}

theorem dumped_getD (read : unswap ((List.range need).map fun i => ram (origin + i)) need = some un)
    {i : Nat} (inside : i < need) (bound : i ^^^ 3 < need) :
    un.getD i 0 = ram (origin + (i ^^^ 3)) := by
  have byte := unswap_getElem? read inside
  rw [List.getElem?_map, List.getElem?_range bound] at byte
  exact (Option.some.inj byte).symm

theorem halfAt_dumped (aligned : origin % 4 = 0) (whole : need % 4 = 0)
    (read : unswap ((List.range need).map fun i => ram (origin + i)) need = some un) {i : Nat}
    (inside : i + 1 < need) : halfAt un i = gameHalf ram (origin + i) := by
  have byte : ∀ j, j < need → un.getD j 0 = gameByte ram (origin + j) := by
    intro j bound
    have block : 2 ^ 2 ∣ need := Nat.dvd_of_mod_eq_zero whole
    have start : 2 ^ 2 ∣ origin := Nat.dvd_of_mod_eq_zero aligned
    rw [dumped_getD read bound (Swizzle.xor_lt (by omega) block bound), gameByte,
      Swizzle.add_xor (by omega) start]
  rw [halfAt_eq, gameHalf, byte i (by omega), byte (i + 1) inside, Nat.add_assoc]

end Dumps

theorem decodesRight_iff {ram : HostRam} {regs : ViRegs} {dump : Dump}
    (half : regs.viStatus &&& 0x3 = 2)
    (dumped : writeViFramebuffer (some ram) (some regs) .good = .ok dump) :
    DecodesRight ram regs ↔
      ∃ un, unswap dump.bytes (dump.width.toNat * dump.height.toNat * 2) = some un ∧
        ∀ x y, x < dump.width.toNat → y < dump.height.toNat →
          rgb5551 (halfAt un (y * dump.width.toNat * 2 + x * 2)) = rgb5551
            (gameHalf ram (dump.origin.toNat + 2 * (y * dump.width.toNat + x))) := by
  obtain ⟨_, _, _, _, bytes⟩ := writeViFramebuffer_good half dumped
  have size : dump.bytes.length = dump.width.toNat * dump.height.toNat * 2 := by simp [bytes]
  have ran := fun (files : String → Option Bytes) src dst (named : files src = some dump.bytes) =>
    fbToPng_sized dst named size dump.width.toNat_lt dump.height.toNat_lt
  constructor
  · intro right
    obtain ⟨out, done, shown⟩ := right dump dumped (fun _ => some dump.bytes) "" "" rfl
    rw [ran _ _ _ rfl] at done
    cases read : unswap dump.bytes (dump.width.toNat * dump.height.toNat * 2) with
    | none =>
      rw [read] at done
      cases done
    | some un =>
      rw [read] at done
      cases done
      refine ⟨un, rfl, fun x y across down => ?_⟩
      have pixel := shown x y across down
      rw [pixel_picture across down] at pixel
      exact Option.some.inj pixel
  · rintro ⟨un, read, halves⟩ same written files src dst named
    have one : same = dump := Except.ok.inj (written.symm.trans dumped)
    subst one
    refine ⟨_, by rw [ran files src dst named, read], fun x y across down => ?_⟩
    rw [pixel_picture across down, halves x y across down]

theorem decodesRight_of_whole {regs : ViRegs} (half : regs.viStatus &&& 0x3 = 2)
    (aligned : regs.viOrigin.toNat % 4 = 0)
    (whole : regs.viWidth.toNat % 0x1000 * regs.height.toNat * 2 % 4 = 0) {ram : HostRam}
    {dump : Dump} (dumped : writeViFramebuffer (some ram) (some regs) .good = .ok dump) :
    DecodesRight ram regs := by
  obtain ⟨origin, width, _, height, bytes⟩ := writeViFramebuffer_good half dumped
  have size : dump.bytes.length = dump.width.toNat * dump.height.toNat * 2 := by simp [bytes]
  have words : dump.width.toNat * dump.height.toNat * 2 % 4 = 0 := by rwa [width, height]
  obtain ⟨un, read⟩ := unswap_whole size words
  refine (decodesRight_iff half dumped).mpr ⟨un, read, fun x y across down => ?_⟩
  have start : dump.origin.toNat % 4 = 0 := by omega
  have place : y * dump.width.toNat * 2 + x * 2 = 2 * (y * dump.width.toNat + x) := by omega
  have inside : 2 * (y * dump.width.toNat + x) + 1 < dump.width.toNat * dump.height.toNat * 2 := by
    have rows := Nat.mul_le_mul_right dump.width.toNat (Nat.succ_le_of_lt down)
    rw [Nat.succ_mul, Nat.mul_comm dump.height.toNat] at rows
    omega
  rw [bytes] at read
  rw [place, halfAt_dumped start words read inside]

theorem not_decodesRight_of_half {ram : HostRam} {regs : ViRegs} {dump : Dump}
    (half : regs.viStatus &&& 0x3 = 2)
    (dumped : writeViFramebuffer (some ram) (some regs) .good = .ok dump)
    (cut : regs.viWidth.toNat % 0x1000 * regs.height.toNat * 2 % 4 ≠ 0) :
    ¬ DecodesRight ram regs := by
  intro right
  obtain ⟨un, read, _⟩ := (decodesRight_iff half dumped).mp right
  obtain ⟨_, width, _, height, bytes⟩ := writeViFramebuffer_good half dumped
  have size : dump.bytes.length = dump.width.toNat * dump.height.toNat * 2 := by simp [bytes]
  have odd : dump.width.toNat * dump.height.toNat * 2 % 4 = 2 := by
    rw [width, height]
    omega
  rw [unswap_half size odd] at read
  cases read

theorem first_red {ram : HostRam} {regs : ViRegs} {dump : Dump} (half : regs.viStatus &&& 0x3 = 2)
    (dumped : writeViFramebuffer (some ram) (some regs) .good = .ok dump)
    (whole : dump.width.toNat * dump.height.toNat * 2 % 4 = 0) (right : DecodesRight ram regs) :
    widen ((ram (dump.origin.toNat + 3)).toNat / 8) =
      widen ((gameByte ram dump.origin.toNat).toNat / 8) := by
  obtain ⟨un, read, halves⟩ := (decodesRight_iff half dumped).mp right
  obtain ⟨_, _, wide, height, bytes⟩ := writeViFramebuffer_good half dumped
  have high : 0 < dump.height.toNat := by
    rw [height]
    exact height_pos regs
  have pixels := Nat.mul_pos wide high
  have first := congrArg Rgb.red (halves 0 0 wide high)
  rw [bytes] at read
  have byte : un.getD 0 0 = ram (dump.origin.toNat + 3) :=
    dumped_getD read (by omega) (show 3 < _ by omega)
  simp only [Nat.zero_mul, Nat.add_zero, Nat.mul_zero, halfAt_eq, gameHalf, red_eq] at first
  rwa [byte] at first

/-- Only one byte of the game is set, and the tool takes another in its place. -/
theorem not_decodesRight_of_crooked {regs : ViRegs} (half : regs.viStatus &&& 0x3 = 2)
    (writes : ∀ ram, ∃ dump, writeViFramebuffer (some ram) (some regs) .good = .ok dump)
    (whole : regs.viWidth.toNat % 0x1000 * regs.height.toNat * 2 % 4 = 0)
    (crooked : regs.viOrigin.toNat % 4 ≠ 0) : ∃ ram, ¬ DecodesRight ram regs := by
  let start := regs.viOrigin.toNat % 0x4000000
  refine ⟨fun i => if i = start ^^^ 3 then 0xFF else 0, fun right => ?_⟩
  obtain ⟨dump, dumped⟩ := writes fun i => if i = start ^^^ 3 then 0xFF else 0
  obtain ⟨origin, width, _, height, _⟩ := writeViFramebuffer_good half dumped
  have reds := first_red half dumped (by rwa [width, height]) right
  have elsewhere : start + 3 ≠ start ^^^ 3 := by
    intro same
    have aligned := (Swizzle.xor_eq_add_iff (k := 2)).mp same.symm
    omega
  rw [origin, gameByte, if_neg elsewhere, if_pos rfl] at reds
  exact absurd reds (by decide)

theorem framebuffer_decodes_iff (regs : ViRegs) (half : regs.viStatus &&& 0x3 = 2)
    (writes : ∀ ram, ∃ dump, writeViFramebuffer (some ram) (some regs) .good = .ok dump) :
    (∀ ram, DecodesRight ram regs) ↔ regs.viOrigin.toNat % 4 = 0 ∧
      ¬ (regs.viWidth.toNat % 2 = 1 ∧ regs.lines % 2 = 1 ∧ regs.lines ≤ 480) := by
  rw [← whole_words_iff]
  constructor
  · intro right
    have whole : regs.viWidth.toNat % 0x1000 * regs.height.toNat * 2 % 4 = 0 := by
      by_contra cut
      obtain ⟨dump, dumped⟩ := writes fun _ => 0
      exact not_decodesRight_of_half half dumped cut (right _)
    refine ⟨?_, whole⟩
    by_contra crooked
    obtain ⟨ram, wrong⟩ := not_decodesRight_of_crooked half writes whole crooked
    exact wrong (right ram)
  · rintro ⟨aligned, whole⟩ ram
    obtain ⟨dump, dumped⟩ := writes ram
    exact decodesRight_of_whole half aligned whole dumped

def ntscRegs (width : UInt32) : ViRegs := ⟨0x3202, 0x00100000, width, 0x002501FF, 0x400⟩

theorem framebuffer_decodes_ntsc :
    (∀ ram, DecodesRight ram (ntscRegs 320)) ↔ (ntscRegs 320).viOrigin.toNat % 4 = 0 ∧
      ¬ ((ntscRegs 320).viWidth.toNat % 2 = 1 ∧ (ntscRegs 320).lines % 2 = 1 ∧
        (ntscRegs 320).lines ≤ 480) :=
  framebuffer_decodes_iff (ntscRegs 320) rfl fun _ => ⟨_, rfl⟩

/-- One column more, and no dump of these registers can be decoded. -/
theorem odd_dump_fails :
    ¬ ∀ (ram : HostRam) (regs : ViRegs), regs.viStatus &&& 0x3 = 2 → DecodesRight ram regs := by
  intro right
  have dumped : ∃ dump, writeViFramebuffer (some fun _ => 0) (some (ntscRegs 321)) .good =
      .ok dump := ⟨_, rfl⟩
  obtain ⟨dump, dumped⟩ := dumped
  have cut : (ntscRegs 321).viWidth.toNat % 0x1000 * (ntscRegs 321).height.toNat * 2 % 4 ≠ 0 := by
    decide
  exact not_decodesRight_of_half rfl dumped cut (right _ (ntscRegs 321) rfl)

end Rayman2Recomp
