import Rayman2Recomp.FbToPng
import Mathlib.Algebra.Order.Ring.Nat
import Mathlib.Tactic.IntervalCases

open Disk

namespace Rayman2Recomp

/-- `xs[start::step]`. -/
def strided (start step : Nat) (xs : Bytes) : Bytes :=
  (List.range ((xs.length - start + (step - 1)) / step)).map fun j => xs.getD (start + step * j) 0

/-- What `b[start::step] = xs` leaves in `b`. -/
def placed (start step : Nat) (b xs : Bytes) : Bytes :=
  b.mapIdx fun i x => if start ≤ i ∧ (i - start) % step = 0 then xs.getD ((i - start) / step) 0 else x

/-- `b[start::step] = xs`, which takes no list of another length. -/
def assignStrided (start step : Nat) (b xs : Bytes) : Except PyError Bytes :=
  if xs.length = (strided start step b).length then .ok (placed start step b xs)
  else .error .valueError

def magicBe : Bytes := [0x80, 0x37, 0x12, 0x40]

def magicBs : Bytes := [0x37, 0x80, 0x40, 0x12]

def magicLe : Bytes := [0x40, 0x12, 0x37, 0x80]

def lowerHexDigit (d : Nat) : Char := (if d < 10 then Char.ofNat (48 + d) else Char.ofNat (87 + d))

/-- `bytes.hex`. -/
def bytesHex (xs : Bytes) : String :=
  String.ofList (xs.flatMap fun x => [lowerHexDigit (x.toNat / 16), lowerHexDigit (x.toNat % 16)])

inductive DumpFormat
  | z64
  | v64
  | n64
  deriving DecidableEq

def DumpFormat.text : DumpFormat → String
  | .z64 => "big-endian (.z64)"
  | .v64 => "byte-swapped (.v64) -> converted"
  | .n64 => "little-endian (.n64) -> converted"

def toBigEndian (data : Bytes) : Except PyError (Bytes × String) :=
  let head := data.take 4
  if head = magicBe then .ok (data, "big-endian (.z64)")
  else if head = magicBs then do
    let b ← assignStrided 0 2 data (strided 1 2 data)
    let b ← assignStrided 1 2 b (strided 0 2 data)
    .ok (b, "byte-swapped (.v64) -> converted")
  else if head = magicLe then do
    let out := List.replicate data.length 0
    let out ← assignStrided 0 4 out (strided 3 4 data)
    let out ← assignStrided 1 4 out (strided 2 4 data)
    let out ← assignStrided 2 4 out (strided 1 4 data)
    let out ← assignStrided 3 4 out (strided 0 4 data)
    .ok (out, "little-endian (.n64) -> converted")
  else .error (.systemExit ("error: not an N64 ROM (magic " ++ bytesHex head ++ ")"))

@[simp] theorem strided_length (start step : Nat) (xs : Bytes) :
    (strided start step xs).length = (xs.length - start + (step - 1)) / step := by
  rw [strided, List.length_map, List.length_range]

@[simp] theorem placed_length (start step : Nat) (b xs : Bytes) :
    (placed start step b xs).length = b.length := by
  rw [placed, List.length_mapIdx]

theorem strided_getD {start step j : Nat} {xs : Bytes}
    (inside : j < (xs.length - start + (step - 1)) / step) :
    (strided start step xs).getD j 0 = xs.getD (start + step * j) 0 := by
  rw [strided, List.getD_eq_getElem?_getD, List.getElem?_map, List.getElem?_range inside]
  rfl

theorem placed_getD {start step i : Nat} {b xs : Bytes} (inside : i < b.length) :
    (placed start step b xs).getD i 0 =
      if start ≤ i ∧ (i - start) % step = 0 then xs.getD ((i - start) / step) 0
      else b.getD i 0 := by
  rw [placed, List.getD_eq_getElem?_getD, List.getElem?_mapIdx, List.getElem?_eq_getElem inside,
    List.getD_eq_getElem _ _ inside]
  rfl

/-- The bytes of a dump with the low bits of every address flipped. -/
def flipped (mask : Nat) (xs : Bytes) : Bytes :=
  (List.range xs.length).map fun i => xs.getD (i ^^^ mask) 0

@[simp] theorem flipped_length (mask : Nat) (xs : Bytes) :
    (flipped mask xs).length = xs.length := by
  rw [flipped, List.length_map, List.length_range]

theorem flipped_getD {mask i : Nat} {xs : Bytes} (inside : i < xs.length) :
    (flipped mask xs).getD i 0 = xs.getD (i ^^^ mask) 0 := by
  rw [flipped, List.getD_eq_getElem?_getD, List.getElem?_map, List.getElem?_range inside]
  rfl

theorem ext_getD {xs ys : Bytes} (length : xs.length = ys.length)
    (same : ∀ i < xs.length, xs.getD i 0 = ys.getD i 0) : xs = ys := by
  refine List.ext_getElem length (fun i hx hy => ?_)
  have here := same i hx
  rwa [List.getD_eq_getElem _ _ hx, List.getD_eq_getElem _ _ hy] at here

theorem flipped_flipped {k mask : Nat} {xs : Bytes} (low : mask < 2 ^ k)
    (whole : 2 ^ k ∣ xs.length) : flipped mask (flipped mask xs) = xs := by
  refine ext_getD (by simp) (fun i inside => ?_)
  rw [flipped_length, flipped_length] at inside
  have other := Swizzle.xor_lt low whole inside
  rw [flipped_getD (by rwa [flipped_length]), flipped_getD other, Nat.xor_assoc, Nat.xor_self,
    Nat.xor_zero]

theorem xor_one (i : Nat) : i ^^^ 1 = 2 * (i / 2) + (1 - i % 2) := by
  have low : 1 < 2 ^ 1 := by omega
  have block : 2 ^ 1 ∣ 2 * (i / 2) := Nat.dvd_mul_right 2 (i / 2)
  have split := Swizzle.add_xor (i := i % 2) low block
  rw [Nat.div_add_mod] at split
  have half := Nat.mod_two_eq_zero_or_one i
  rcases half with even | odd
  · rw [split, even]
    rfl
  · rw [split, odd]
    rfl

theorem xor_three (i : Nat) : i ^^^ 3 = 4 * (i / 4) + (3 - i % 4) := by
  have low : 3 < 2 ^ 2 := by omega
  have block : 2 ^ 2 ∣ 4 * (i / 4) := Nat.dvd_mul_right 4 (i / 4)
  have split := Swizzle.add_xor (i := i % 4) low block
  rw [Nat.div_add_mod] at split
  have bound := Nat.mod_lt i (by omega : 0 < 4)
  rw [split]
  generalize i % 4 = r at bound
  interval_cases r <;> rfl

theorem assignStrided_fits {start step : Nat} {b xs : Bytes}
    (fits : xs.length = (b.length - start + (step - 1)) / step) :
    assignStrided start step b xs = .ok (placed start step b xs) := by
  rw [assignStrided, if_pos (by rwa [strided_length])]

theorem assignStrided_fails {start step : Nat} {b xs : Bytes}
    (fails : xs.length ≠ (b.length - start + (step - 1)) / step) :
    assignStrided start step b xs = .error .valueError := by
  rw [assignStrided, if_neg (by rwa [strided_length])]

/-- The two assignments of the byte-swapped branch. -/
theorem swap_pairs (data : Bytes) :
    (do let b ← assignStrided 0 2 data (strided 1 2 data)
        assignStrided 1 2 b (strided 0 2 data)) =
      if 2 ∣ data.length then .ok (flipped 1 data) else .error .valueError := by
  by_cases whole : 2 ∣ data.length
  · obtain ⟨n, length⟩ := whole
    rw [if_pos ⟨n, length⟩, assignStrided_fits (by rw [strided_length]; omega)]
    change assignStrided 1 2 _ _ = _
    rw [assignStrided_fits (by rw [strided_length, placed_length]; omega)]
    congr 1
    refine ext_getD (by simp) (fun i inside => ?_)
    rw [placed_length, placed_length] at inside
    rw [flipped_getD inside, xor_one, placed_getD (by rwa [placed_length])]
    by_cases odd : 1 ≤ i ∧ (i - 1) % 2 = 0
    · rw [if_pos odd, strided_getD (by omega)]
      congr 1
      omega
    · rw [if_neg odd, placed_getD inside, if_pos (by omega), strided_getD (by omega)]
      congr 1
      omega
  · rw [if_neg whole, assignStrided_fails (by rw [strided_length]; omega)]
    rfl

/-- One of those four assignments, into the bytes that are `start` inside their words. -/
theorem placed_word {start source i : Nat} {b data : Bytes} (whole : 4 ∣ data.length)
    (length : b.length = data.length) (start_lt : start < 4) (source_lt : source < 4)
    (inside : i < b.length) :
    (placed start 4 b (strided source 4 data)).getD i 0 =
      if i % 4 = start then data.getD (4 * (i / 4) + source) 0 else b.getD i 0 := by
  obtain ⟨n, words⟩ := whole
  rw [placed_getD inside]
  by_cases here : i % 4 = start
  · rw [if_pos here, if_pos (by omega), strided_getD (by omega)]
    congr 1
    omega
  · rw [if_neg here, if_neg (by omega)]

/-- The four assignments of the little-endian branch. -/
theorem reverse_words (data : Bytes) :
    (do let out ← assignStrided 0 4 (List.replicate data.length 0) (strided 3 4 data)
        let out ← assignStrided 1 4 out (strided 2 4 data)
        let out ← assignStrided 2 4 out (strided 1 4 data)
        assignStrided 3 4 out (strided 0 4 data)) =
      if 4 ∣ data.length then .ok (flipped 3 data) else .error .valueError := by
  by_cases whole : 4 ∣ data.length
  · obtain ⟨n, length⟩ := whole
    have zeros : (List.replicate data.length (0 : UInt8)).length = data.length :=
      List.length_replicate
    rw [if_pos ⟨n, length⟩, assignStrided_fits (by rw [strided_length, zeros]; omega)]
    change (do let out ← assignStrided 1 4 _ _; let out ← assignStrided 2 4 out _; assignStrided 3 4 out _) = _
    rw [assignStrided_fits (by rw [strided_length, placed_length, zeros]; omega)]
    change (do let out ← assignStrided 2 4 _ _; assignStrided 3 4 out _) = _
    rw [assignStrided_fits (by rw [strided_length, placed_length, placed_length, zeros]; omega)]
    change assignStrided 3 4 _ _ = _
    rw [assignStrided_fits
      (by rw [strided_length, placed_length, placed_length, placed_length, zeros]; omega)]
    congr 1
    refine ext_getD (by simp) (fun i inside => ?_)
    simp only [placed_length, zeros] at inside
    have bound := Nat.mod_lt i (by omega : 0 < 4)
    rw [flipped_getD inside, xor_three]
    have words : 4 ∣ data.length := ⟨n, length⟩
    rw [placed_word words (by simp) (by omega) (by omega) (by simpa using inside),
      placed_word words (by simp) (by omega) (by omega) (by simpa using inside),
      placed_word words (by simp) (by omega) (by omega) (by simpa using inside),
      placed_word words (by simp) (by omega) (by omega) (by simpa using inside)]
    generalize i % 4 = r at bound
    interval_cases r <;> rfl
  · rw [if_neg whole, assignStrided_fails (by rw [strided_length, List.length_replicate]; omega)]
    rfl

def DumpFormat.mask : DumpFormat → Nat
  | .z64 => 0
  | .v64 => 1
  | .n64 => 3

def DumpFormat.magic : DumpFormat → Bytes
  | .z64 => magicBe
  | .v64 => magicBs
  | .n64 => magicLe

theorem flipped_zero (xs : Bytes) : flipped 0 xs = xs := by
  refine ext_getD (by simp) (fun i inside => ?_)
  rw [flipped_length] at inside
  rw [flipped_getD inside, Nat.xor_zero]

/-- The branch of each magic, in one form. -/
theorem toBigEndian_branch {format : DumpFormat} {data : Bytes}
    (magic : data.take 4 = format.magic) :
    toBigEndian data =
      if format.mask + 1 ∣ data.length then .ok (flipped format.mask data, format.text)
      else .error .valueError := by
  unfold toBigEndian
  cases format with
  | z64 =>
    have here : data.take 4 = magicBe := magic
    have whole : DumpFormat.z64.mask + 1 ∣ data.length := Nat.one_dvd _
    simp only
    rw [if_pos here, if_pos whole]
    exact congrArg (fun xs => Except.ok (xs, DumpFormat.z64.text)) (flipped_zero data).symm
  | v64 =>
    have here : data.take 4 = magicBs := magic
    have other : magicBs ≠ magicBe := by decide
    simp only
    rw [here, if_neg other, if_pos rfl]
    have pairs := congrArg (fun x => x >>= fun b => Except.ok (b, DumpFormat.v64.text))
      (swap_pairs data)
    simp only [bind_assoc] at pairs
    refine pairs.trans ?_
    by_cases whole : 2 ∣ data.length
    · rw [if_pos whole]
      exact (if_pos whole).symm
    · rw [if_neg whole]
      exact (if_neg whole).symm
  | n64 =>
    have here : data.take 4 = magicLe := magic
    have other : magicLe ≠ magicBe := by decide
    have other' : magicLe ≠ magicBs := by decide
    simp only
    rw [here, if_neg other, if_neg other', if_pos rfl]
    have words := congrArg (fun x => x >>= fun b => Except.ok (b, DumpFormat.n64.text))
      (reverse_words data)
    simp only [bind_assoc] at words
    refine words.trans ?_
    by_cases whole : 4 ∣ data.length
    · rw [if_pos whole]
      exact (if_pos whole).symm
    · rw [if_neg whole]
      exact (if_neg whole).symm

theorem DumpFormat.magic_flipped (format : DumpFormat) (i : Nat) (inside : i < 4) :
    format.magic.getD i 0 = magicBe.getD (i ^^^ format.mask) 0 := by
  cases format <;> interval_cases i <;> rfl

theorem DumpFormat.mask_lt (format : DumpFormat) : format.mask < 2 ^ 2 := by
  cases format <;> decide

theorem take_four {xs magic : Bytes} (four : magic.length = 4) :
    xs.take 4 = magic ↔ 4 ≤ xs.length ∧ ∀ i < 4, xs.getD i 0 = magic.getD i 0 := by
  constructor
  · intro h
    have length := congrArg List.length h
    rw [List.length_take] at length
    refine ⟨by omega, fun i inside => ?_⟩
    rw [← h, List.getD_eq_getElem?_getD, List.getD_eq_getElem?_getD, List.getElem?_take_of_lt inside]
  · intro h
    obtain ⟨enough, same⟩ := h
    refine ext_getD (by rw [List.length_take]; omega) (fun i inside => ?_)
    rw [List.length_take] at inside
    rw [← same i (by omega), List.getD_eq_getElem?_getD, List.getD_eq_getElem?_getD,
      List.getElem?_take_of_lt (by omega)]

theorem flipped_head {format : DumpFormat} {xs : Bytes} :
    (flipped format.mask xs).take 4 = format.magic ↔ xs.take 4 = magicBe := by
  have four : format.magic.length = 4 := by cases format <;> rfl
  have word : 2 ^ 2 ∣ 4 := Nat.dvd_refl 4
  rw [take_four four, take_four (by rfl : magicBe.length = 4), flipped_length]
  refine and_congr_right (fun enough => ⟨fun same i inside => ?_, fun same i inside => ?_⟩)
  · have other := Swizzle.xor_lt format.mask_lt word inside
    have here := same (i ^^^ format.mask) other
    rwa [flipped_getD (by omega), format.magic_flipped _ other, Nat.xor_assoc, Nat.xor_self,
      Nat.xor_zero] at here
  · rw [flipped_getD (by omega), format.magic_flipped i inside]
    exact same _ (Swizzle.xor_lt format.mask_lt word inside)

theorem flipped_dump {format : DumpFormat} {xs : Bytes} (whole : format.mask + 1 ∣ xs.length) :
    flipped format.mask (flipped format.mask xs) = xs := by
  cases format with
  | z64 => rw [DumpFormat.mask, flipped_zero, flipped_zero]
  | v64 => exact flipped_flipped (by decide : 1 < 2 ^ 1) whole
  | n64 => exact flipped_flipped (by decide : 3 < 2 ^ 2) whole

theorem toBigEndian_magic {data : Bytes} {p : Bytes × String} (accepted : toBigEndian data = .ok p) :
    ∃ format : DumpFormat, data.take 4 = format.magic := by
  unfold toBigEndian at accepted
  simp only at accepted
  split at accepted
  next here => exact ⟨.z64, here⟩
  next =>
    split at accepted
    next here => exact ⟨.v64, here⟩
    next =>
      split at accepted
      next here => exact ⟨.n64, here⟩
      next => cases accepted

theorem toBigEndian_dump {format : DumpFormat} {image : Bytes} (magic : image.take 4 = magicBe)
    (whole : format.mask + 1 ∣ image.length) :
    toBigEndian (flipped format.mask image) = .ok (image, format.text) := by
  rw [toBigEndian_branch (flipped_head.mpr magic), flipped_length, if_pos whole, flipped_dump whole]

theorem toBigEndian_accepts {data : Bytes} {p : Bytes × String}
    (accepted : toBigEndian data = .ok p) :
    ∃ format : DumpFormat, p.2 = format.text ∧ p.1.take 4 = magicBe ∧
      format.mask + 1 ∣ p.1.length ∧ data = flipped format.mask p.1 := by
  obtain ⟨format, magic⟩ := toBigEndian_magic accepted
  rw [toBigEndian_branch magic] at accepted
  by_cases whole : format.mask + 1 ∣ data.length
  · rw [if_pos whole] at accepted
    obtain rfl := Except.ok.inj accepted
    have back := flipped_dump whole
    refine ⟨format, rfl, ?_, by rwa [flipped_length], back.symm⟩
    rw [← back] at magic
    exact flipped_head.mp magic
  · rw [if_neg whole] at accepted
    cases accepted

/-- `to_big_endian` answers with an image exactly for the dumps of that image, and names
the format it found. -/
theorem toBigEndian_exact (data : Bytes) (p : Bytes × String) :
    toBigEndian data = .ok p ↔ ∃ format : DumpFormat, p.2 = format.text ∧
      p.1.take 4 = magicBe ∧ format.mask + 1 ∣ p.1.length ∧ data = flipped format.mask p.1 := by
  refine ⟨toBigEndian_accepts, fun h => ?_⟩
  obtain ⟨format, named, magic, whole, dump⟩ := h
  rw [dump, toBigEndian_dump magic whole, ← named]

/-- The entries of `info`. -/
structure RomInfo where
  format : String
  size : Nat
  entrypoint : Nat
  crc1 : Nat
  crc2 : Nat
  name : String
  cart : String
  version : UInt8
  sha1 : String
  md5 : String

/-- `struct.unpack_from(">I", data, off)[0]`. -/
def unpackFrom (data : Bytes) (off : Nat) : Except PyError Nat :=
  if off + 4 ≤ data.length then
    .ok (((data.drop off).take 4).foldl (fun n x => 256 * n + x.toNat) 0)
  else .error .structError

/-- `decode("ascii", "replace")`. -/
def decodeAscii (xs : Bytes) : List Char :=
  xs.map fun x => if x.toNat < 128 then Char.ofNat x.toNat else Char.ofNat 0xFFFD

/-- The characters below 128 that `strip` takes. -/
def isBlank (c : Char) : Bool :=
  (9 ≤ c.toNat && c.toNat ≤ 13) || (28 ≤ c.toNat && c.toNat ≤ 32)

def strip (xs : List Char) : List Char :=
  ((xs.dropWhile isBlank).reverse.dropWhile isBlank).reverse

def targetEntrypoint : Nat := 0x80000400

def targetCart : String := "NY2E"

def targetSha1 : String := "50558356b059ad3fbaf5fe95380512b9dceaaf52"

/-- What `main` prints from, its exit status and whether it adds the line about regions. -/
structure Verdict where
  info : RomInfo
  status : Nat
  otherRegion : Bool

section

variable (sha1 md5 : Bytes → String)

def romInfo (data : Bytes) (fmt : String) : Except PyError RomInfo := do
  let entrypoint ← unpackFrom data 0x08
  let crc1 ← unpackFrom data 0x10
  let crc2 ← unpackFrom data 0x14
  let name := strip (decodeAscii ((data.drop 0x20).take (0x34 - 0x20)))
  let cart := decodeAscii ((data.drop 0x3B).take (0x3F - 0x3B))
  match data[0x3F]? with
  | none => .error .indexError
  | some version =>
    .ok ⟨fmt, data.length, entrypoint, crc1, crc2, String.ofList name, String.ofList cart, version,
      sha1 data, md5 data⟩

/-- `main` once the file is read. -/
def romVerdict (raw : Bytes) : Except PyError Verdict := do
  let p ← toBigEndian raw
  let info ← romInfo sha1 md5 p.1 p.2
  if info.sha1 = targetSha1 then .ok ⟨info, 0, false⟩
  else
    .ok ⟨info, 1, info.entrypoint = targetEntrypoint ∧
      info.cart.toList.dropLast ≠ targetCart.toList.dropLast⟩

def identifyRom (files : String → Option Bytes) (argv : List String) : Except PyError Verdict :=
  match argv with
  | [_, path] =>
    match files path with
    | none => .error .fileNotFound
    | some raw => romVerdict sha1 md5 raw
  | argv => .error (.systemExit ("usage: " ++ argv.headD "" ++ " path/to/rom.z64"))

theorem unpackFrom_fits {data : Bytes} {off : Nat} (fits : off + 4 ≤ data.length) :
    ∃ n, unpackFrom data off = .ok n :=
  ⟨_, if_pos fits⟩

theorem romInfo_reads {data : Bytes} (fmt : String) (long : 0x40 ≤ data.length) :
    ∃ info, romInfo sha1 md5 data fmt = .ok info ∧ info.sha1 = sha1 data := by
  obtain ⟨entrypoint, first⟩ := unpackFrom_fits (by omega : 0x08 + 4 ≤ data.length)
  obtain ⟨crc1, second⟩ := unpackFrom_fits (by omega : 0x10 + 4 ≤ data.length)
  obtain ⟨crc2, third⟩ := unpackFrom_fits (by omega : 0x14 + 4 ≤ data.length)
  have version : data[0x3F]? = some (data.getD 0x3F 0) := by
    rw [List.getElem?_eq_getElem (by omega), List.getD_eq_getElem _ _ (by omega)]
  unfold romInfo
  rw [first, second, third, version]
  exact ⟨_, rfl, rfl⟩

theorem romInfo_long {data : Bytes} {fmt : String} {info : RomInfo}
    (read : romInfo sha1 md5 data fmt = .ok info) :
    0x40 ≤ data.length ∧ info.sha1 = sha1 data := by
  unfold romInfo at read
  cases first : unpackFrom data 0x08 with
  | error e =>
    rw [first] at read
    cases read
  | ok entrypoint =>
    cases second : unpackFrom data 0x10 with
    | error e =>
      rw [first, second] at read
      cases read
    | ok crc1 =>
      cases third : unpackFrom data 0x14 with
      | error e =>
        rw [first, second, third] at read
        cases read
      | ok crc2 =>
        rw [first, second, third] at read
        cases version : data[0x3F]? with
        | none =>
          rw [version] at read
          cases read
        | some v =>
          rw [version] at read
          have long := (List.getElem?_eq_some_iff.mp version).1
          obtain rfl := Except.ok.inj read
          exact ⟨long, rfl⟩

theorem romVerdict_target {raw : Bytes} {verdict : Verdict}
    (judged : romVerdict sha1 md5 raw = .ok verdict) (status : verdict.status = 0) :
    ∃ (image : Bytes) (format : DumpFormat), raw = flipped format.mask image ∧
      image.take 4 = magicBe ∧ format.mask + 1 ∣ image.length ∧ 0x40 ≤ image.length ∧
      sha1 image = targetSha1 := by
  unfold romVerdict at judged
  cases converted : toBigEndian raw with
  | error e =>
    rw [converted] at judged
    cases judged
  | ok p =>
    rw [converted] at judged
    cases read : romInfo sha1 md5 p.1 p.2 with
    | error e =>
      simp only [read, bind, Except.bind] at judged
      cases judged
    | ok info =>
      simp only [read, bind, Except.bind] at judged
      obtain ⟨long, hash⟩ := romInfo_long sha1 md5 read
      obtain ⟨format, -, magic, whole, dump⟩ := toBigEndian_accepts converted
      split at judged
      next target => exact ⟨p.1, format, dump, magic, whole, long, hash.symm.trans target⟩
      next =>
        obtain rfl := Except.ok.inj judged
        cases status

theorem romVerdict_dump {image : Bytes} {format : DumpFormat} (magic : image.take 4 = magicBe)
    (whole : format.mask + 1 ∣ image.length) (long : 0x40 ≤ image.length)
    (target : sha1 image = targetSha1) :
    ∃ verdict, romVerdict sha1 md5 (flipped format.mask image) = .ok verdict ∧
      verdict.status = 0 := by
  obtain ⟨info, read, hash⟩ := romInfo_reads sha1 md5 format.text long
  refine ⟨⟨info, 0, false⟩, ?_, rfl⟩
  unfold romVerdict
  simp only [toBigEndian_dump magic whole, bind, Except.bind, read]
  rw [if_pos (hash.trans target)]

/-- The tool exits with 0 exactly for a dump, in any of the three orders, of the image
the port targets. -/
theorem identifyRom_supported (files : String → Option Bytes) (argv : List String) :
    (∃ verdict, identifyRom sha1 md5 files argv = .ok verdict ∧ verdict.status = 0) ↔
      ∃ (program path : String) (image : Bytes) (format : DumpFormat), argv = [program, path] ∧
        files path = some (flipped format.mask image) ∧ image.take 4 = magicBe ∧
        format.mask + 1 ∣ image.length ∧ 0x40 ≤ image.length ∧ sha1 image = targetSha1 := by
  constructor
  · intro h
    obtain ⟨verdict, identified, status⟩ := h
    unfold identifyRom at identified
    split at identified
    next program path =>
      cases file : files path with
      | none =>
        rw [file] at identified
        cases identified
      | some raw =>
        rw [file] at identified
        obtain ⟨image, format, dump, image_is⟩ := romVerdict_target sha1 md5 identified status
        exact ⟨program, path, image, format, rfl, by rw [file, dump], image_is⟩
    next => cases identified
  · intro h
    obtain ⟨program, path, image, format, rfl, file, magic, whole, long, target⟩ := h
    obtain ⟨verdict, judged, status⟩ := romVerdict_dump sha1 md5 magic whole long target
    refine ⟨verdict, ?_, status⟩
    simp only [identifyRom, file]
    exact judged

end

end Rayman2Recomp
