import Rayman2Recomp.FramebufferDump
import Rayman2Recomp.Raster
import Rayman2Recomp.Swizzle

open Disk Raster

namespace Rayman2Recomp

inductive PyError
  | fileNotFound
  | systemExit (message : String)
  | valueError
  | indexError
  | structError

/-- What the tool packs into the header and the compressed scanlines. -/
structure Png where
  width : Nat
  height : Nat
  bitDepth : Nat
  colourType : Nat
  compression : Nat
  filter : Nat
  interlace : Nat
  scanlines : Bytes

structure Argv where
  src : Option String
  dst : Option String
  width : Option Int
  height : Option Int

structure Converted where
  dst : String
  png : Png
  printed : String

def unswap (raw : Bytes) (need : Nat) : Option Bytes :=
  (List.range need).mapM fun i => raw[i ^^^ 3]?

def halfAt (un : Bytes) (i : Nat) : Nat :=
  ((un.getD i 0).toNat <<< 8) ||| (un.getD (i + 1) 0).toNat

def replicated (c5 : Nat) : UInt8 := UInt8.ofNat ((c5 <<< 3) ||| (c5 >>> 2))

def pixelBytes (px : Nat) : Bytes :=
  [replicated ((px >>> 11) &&& 31), replicated ((px >>> 6) &&& 31), replicated ((px >>> 1) &&& 31)]

def pngRow (un : Bytes) (w y : Nat) : Bytes :=
  0 :: raster w fun x => pixelBytes (halfAt un (y * w * 2 + x * 2))

def nonblack (un : Bytes) (pixels : Nat) : Nat :=
  (List.range pixels).countP fun i => halfAt un (i * 2) &&& 0xFFC0 != 0

def picture (un : Bytes) (w h : Nat) : Png := ⟨w, h, 8, 2, 0, 0, 0, raster h (pngRow un w)⟩

def summary (dst : String) (un : Bytes) (w h : Int) : String :=
  "wrote " ++ dst ++ "  " ++ toString w ++ "x" ++ toString h ++ "  non-black pixels: " ++
    toString (nonblack un ((w * h).toNat)) ++ " of " ++ toString (w * h)

/-- `main` -/
def fbToPng (files : String → Option Bytes) (argv : Argv) : Except PyError Converted :=
  let src := argv.src.getD "fb_dump.bin"
  let dst := argv.dst.getD "fb.png"
  let w := argv.width.getD 320
  let h := argv.height.getD 240
  match files src with
  | none => .error .fileNotFound
  | some raw =>
    let need := w * h * 2
    if raw.length < need then
      .error (.systemExit
        (src ++ ": " ++ toString raw.length ++ " bytes, need " ++ toString need))
    else if need < 0 then .error .valueError
    else
      match unswap raw need.toNat with
      | none => .error .indexError
      | some un =>
        -- the header packs both as unsigned words, after the rows
        if w < 0 ∨ 2 ^ 32 ≤ w ∨ h < 0 ∨ 2 ^ 32 ≤ h then .error .structError
        else .ok ⟨dst, picture un w.toNat h.toNat, summary dst un w h⟩

structure Rgb where
  red : UInt8
  green : UInt8
  blue : UInt8
deriving DecidableEq

/-- Five bits scaled to eight by repeating the high ones. -/
def widen (c : Nat) : UInt8 := UInt8.ofNat (8 * c + c / 4)

/-- The colour of a halfword of five bits each of red, green and blue and one of coverage. -/
def rgb5551 (half : Nat) : Rgb :=
  ⟨widen (half / 2048 % 32), widen (half / 64 % 32), widen (half / 2 % 32)⟩

/-- A pixel of a truecolour picture of 8 bits a channel, on a line without a filter. -/
def Png.pixel (p : Png) (x y : Nat) : Option Rgb :=
  let line := y * (p.width * 3 + 1)
  match p.scanlines[line]?, p.scanlines[line + 1 + x * 3]?, p.scanlines[line + 1 + x * 3 + 1]?,
    p.scanlines[line + 1 + x * 3 + 2]? with
  | some 0, some red, some green, some blue => some ⟨red, green, blue⟩
  | _, _, _, _ => none

theorem mapM_eq_some_iff {α β : Type} {f : α → Option β} {xs : List α} {ys : List β} :
    xs.mapM f = some ys ↔ xs.map f = ys.map some := by
  induction xs generalizing ys with
  | nil =>
    cases ys with
    | nil => simp
    | cons y ys => simp
  | cons x xs ih =>
    rw [List.mapM_cons, List.map_cons]
    cases ys with
    | nil => simp [Option.bind_eq_some_iff]
    | cons y ys => simp [Option.bind_eq_some_iff, ← ih]

theorem halfAt_eq (un : Bytes) (i : Nat) :
    halfAt un i = 256 * (un.getD i 0).toNat + (un.getD (i + 1) 0).toNat := by
  rw [halfAt, ← Nat.shiftLeft_add_eq_or_of_lt (UInt8.toNat_lt _), Nat.shiftLeft_eq]
  omega

theorem replicated_eq {c5 : Nat} (five : c5 < 32) : replicated c5 = widen c5 := by
  have low : c5 >>> 2 < 2 ^ 3 := by
    rw [Nat.shiftRight_eq_div_pow]
    omega
  rw [replicated, widen, ← Nat.shiftLeft_add_eq_or_of_lt low, Nat.shiftLeft_eq,
    Nat.shiftRight_eq_div_pow, Nat.mul_comm]

theorem pixelBytes_eq (px : Nat) :
    pixelBytes px = [(rgb5551 px).red, (rgb5551 px).green, (rgb5551 px).blue] := by
  have channel : ∀ shift, replicated ((px >>> shift) &&& 31) = widen (px / 2 ^ shift % 32) := by
    intro shift
    have five : (px >>> shift) &&& 31 = px / 2 ^ shift % 32 := by
      rw [Nat.shiftRight_eq_div_pow]
      exact Nat.and_two_pow_sub_one_eq_mod _ 5
    rw [five]
    exact replicated_eq (Nat.mod_lt _ (by omega))
  rw [pixelBytes, channel, channel, channel]
  rfl

section Decoding

variable {raw un : Bytes} {need w h x y : Nat}

theorem unswap_length (read : unswap raw need = some un) : un.length = need := by
  have lists := congrArg List.length (mapM_eq_some_iff.mp read)
  simpa using lists.symm

theorem unswap_getElem? (read : unswap raw need = some un) {i : Nat} (inside : i < need) :
    raw[i ^^^ 3]? = some (un.getD i 0) := by
  have lists := congrArg (fun values => values[i]?) (mapM_eq_some_iff.mp read)
  have length := unswap_length read
  rw [List.getElem?_map, List.getElem?_range inside, List.getElem?_map,
    List.getElem?_eq_getElem (by omega)] at lists
  rw [List.getD_eq_getElem _ _ (by omega)]
  exact Option.some.inj lists

theorem unswap_whole (len : raw.length = need) (whole : need % 4 = 0) :
    ∃ un, unswap raw need = some un := by
  refine ⟨(List.range need).map fun i => raw.getD (i ^^^ 3) 0, mapM_eq_some_iff.mpr ?_⟩
  rw [List.map_map]
  refine List.map_congr_left fun i mem => ?_
  have inside : i ^^^ 3 < need :=
    Swizzle.xor_lt (k := 2) (by omega) (Nat.dvd_of_mod_eq_zero whole) (List.mem_range.mp mem)
  have there : i ^^^ 3 < raw.length := by omega
  simp [there]

/-- A file that ends on half a word has no byte to take for its last pixel. -/
theorem unswap_half (len : raw.length = need) (half : need % 4 = 2) : unswap raw need = none := by
  cases read : unswap raw need with
  | none => rfl
  | some un =>
    have last := unswap_getElem? read (show need - 2 < need by omega)
    have aligned : 2 ^ 2 ∣ need - 2 := Nat.dvd_of_mod_eq_zero (by omega)
    rw [Swizzle.xor_of_aligned (by omega) aligned, List.getElem?_eq_none (by omega)] at last
    cases last

theorem length_pixels (un : Bytes) (w y x : Nat) :
    (pixelBytes (halfAt un (y * w * 2 + x * 2))).length = 3 := rfl

theorem length_pngRow (un : Bytes) (w y : Nat) : (pngRow un w y).length = w * 3 + 1 := by
  rw [pngRow, List.length_cons, length_raster (length_pixels un w y)]

theorem pixel_picture (across : x < w) (down : y < h) :
    (picture un w h).pixel x y = some (rgb5551 (halfAt un (y * w * 2 + x * 2))) := by
  have lines : ∀ i, i < w * 3 + 1 →
      (picture un w h).scanlines[y * (w * 3 + 1) + i]? = (pngRow un w y)[i]? := fun i inside =>
    raster_getElem? (length_pngRow un w) down inside
  have unfiltered := lines 0 (by omega)
  have channels : ∀ c, c < 3 → (picture un w h).scanlines[y * (w * 3 + 1) + 1 + x * 3 + c]? =
      (pixelBytes (halfAt un (y * w * 2 + x * 2)))[c]? := by
    intro c small
    have inside : x * 3 + c + 1 < w * 3 + 1 := by omega
    have place : y * (w * 3 + 1) + 1 + x * 3 + c = y * (w * 3 + 1) + (x * 3 + c + 1) := by omega
    rw [place, lines _ inside, pngRow, List.getElem?_cons_succ]
    exact raster_getElem? (length_pixels un w y) across small
  have red := channels 0 (by omega)
  have green := channels 1 (by omega)
  have blue := channels 2 (by omega)
  rw [pixelBytes_eq] at red green blue
  rw [Nat.add_zero] at unfiltered red
  unfold Png.pixel
  dsimp only [picture] at unfiltered red green blue ⊢
  rw [unfiltered, red, green, blue]
  rfl

theorem fbToPng_sized {files : String → Option Bytes} {src : String} (dst : String)
    (named : files src = some raw) (len : raw.length = w * h * 2) (wide : w < 2 ^ 32)
    (high : h < 2 ^ 32) :
    fbToPng files ⟨some src, some dst, some w, some h⟩ =
      match unswap raw (w * h * 2) with
      | none => .error .indexError
      | some un => .ok ⟨dst, picture un w h, summary dst un w h⟩ := by
  have need : (w : Int) * h * 2 = ((w * h * 2 : Nat) : Int) := by push_cast; rfl
  unfold fbToPng
  dsimp only [Option.getD_some]
  rw [named, need, Int.toNat_natCast, Int.toNat_natCast, Int.toNat_natCast]
  dsimp only
  rw [if_neg (by omega), if_neg (by omega)]
  cases unswap raw (w * h * 2) with
  | none => rfl
  | some un =>
    dsimp only
    rw [if_neg (by omega)]

end Decoding

end Rayman2Recomp
