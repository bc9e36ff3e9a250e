import Rayman2Recomp.Extents
import Rayman2Recomp.MissingFuncs

open Disk Extents

namespace Rayman2Recomp

def baseRom : Nat := 0x1000

def blk : Nat := 0x1000

def plausibleMips (w : Nat) : Bool :=
  if w = 0 then true
  else if w >>> 26 = 0 then
    [0x00, 0x02, 0x03, 0x04, 0x06, 0x07, 0x08, 0x09, 0x0C, 0x0D,
      0x10, 0x11, 0x12, 0x13, 0x18, 0x19, 0x1A, 0x1B, 0x20, 0x21,
      0x22, 0x23, 0x24, 0x25, 0x26, 0x27, 0x2A, 0x2B].contains (w &&& 0x3F)
  else
    [0x01, 0x02, 0x03, 0x04, 0x05, 0x06, 0x07, 0x08, 0x09, 0x0A, 0x0B,
      0x0C, 0x0D, 0x0E, 0x0F, 0x10, 0x11, 0x14, 0x15, 0x16, 0x17, 0x20,
      0x21, 0x22, 0x23, 0x24, 0x25, 0x26, 0x28, 0x29, 0x2A, 0x2B, 0x2E,
      0x30, 0x31, 0x35, 0x38, 0x39, 0x3D].contains (w >>> 26)

def isCall (w : Nat) : Bool := w >>> 26 == 3 || w == 0x03E00008

/-- More than 90% of the words are plausible and four at least are calls. -/
def isCode (words : List Nat) : Bool :=
  9 * words.length < 10 * words.countP plausibleMips && 4 ≤ words.countP isCall

def blockWords (data : Bytes) (off : Nat) : Option (List Nat) :=
  unpackWords ((data.drop off).take blk)

/-- `range` with a positive step. -/
def pyRange (start stop step : Nat) : List Nat :=
  (List.range ((stop - start + (step - 1)) / step)).map fun k => start + k * step

def surveyTurn (data : Bytes) (s : List (Nat × Nat) × Option Nat) (off : Nat) :
    Option (List (Nat × Nat) × Option Nat) :=
  (blockWords data off).map fun words => advance (isCode words) s off

/-- The list `runs` of `survey`. -/
def surveyRuns (data : Bytes) : Option (List (Nat × Nat)) :=
  ((pyRange baseRom (data.length - blk) blk).foldlM (surveyTurn data) ([], none)).map fun s =>
    finish s data.length

def blockOffset (k : Nat) : Nat := baseRom + k * blk

/-- The number of blocks that fit into the image after its header. -/
def fullBlocks (data : Bytes) : Nat := data.length / blk - 1

def isCodeBlock (data : Bytes) (k : Nat) : Bool := (blockWords data (blockOffset k)).any isCode

def offsets : Nat × Nat → Nat × Nat := Prod.map blockOffset blockOffset

variable {data : Bytes} {runs : List (Nat × Nat)} {k : Nat}

/-- The runs are the maximal runs of the full blocks that satisfy the test. -/
structure ExactRuns (data : Bytes) (runs : List (Nat × Nat)) : Prop where
  ascending : runs.Pairwise fun r r' => r.2 < r'.1
  exact : ∀ r, r ∈ runs ↔
    ∃ extent, IsExtent (isCodeBlock data) (fullBlocks data) extent ∧ r = offsets extent

/-- The runs hold the full blocks that satisfy the test, and no other full block. -/
structure CoveringRuns (data : Bytes) (runs : List (Nat × Nat)) : Prop where
  ascending : runs.Pairwise fun r r' => r.2 < r'.1
  covering : ∀ k, k < fullBlocks data → (isCodeBlock data k = true ↔
    ∃ r ∈ runs, r.1 ≤ blockOffset k ∧ blockOffset (k + 1) ≤ r.2)

theorem blockOffset_lt {j : Nat} : blockOffset j < blockOffset k ↔ j < k := by
  unfold blockOffset baseRom blk
  omega

theorem blockOffset_le {j : Nat} : blockOffset j ≤ blockOffset k ↔ j ≤ k := by
  unfold blockOffset baseRom blk
  omega

theorem offsets_injective : Function.Injective offsets := by
  intro r r' same
  obtain ⟨first, second⟩ := Prod.mk.inj same
  unfold blockOffset baseRom blk at first second
  exact Prod.ext (by omega) (by omega)

theorem unpackWords_isSome (bytes : Bytes) (whole : bytes.length % 4 = 0) :
    (unpackWords bytes).isSome = true := by
  induction bytes using unpackWords.induct with
  | case1 => rfl
  | case2 a b c d rest ih =>
    have shorter : rest.length % 4 = 0 := by
      simp only [List.length_cons] at whole
      omega
    rw [unpackWords, Option.isSome_map]
    exact ih shorter
  | case3 bytes nonempty shape =>
    cases bytes with
    | nil => exact absurd rfl nonempty
    | cons a bytes =>
      cases bytes with
      | nil => simp at whole
      | cons b bytes =>
        cases bytes with
        | nil => simp at whole
        | cons c bytes =>
          cases bytes with
          | nil => simp at whole
          | cons d rest => exact absurd rfl (shape a b c d rest)

theorem surveyTurn_block (inside : blockOffset (k + 1) ≤ data.length)
    (s : List (Nat × Nat) × Option Nat) :
    surveyTurn data s (blockOffset k) = some (advance (isCodeBlock data k) s (blockOffset k)) := by
  have length : ((data.drop (blockOffset k)).take blk).length = blk := by
    rw [List.length_take, List.length_drop]
    unfold blockOffset at inside ⊢
    rw [Nat.succ_mul] at inside
    omega
  have whole : (blockWords data (blockOffset k)).isSome = true := by
    apply unpackWords_isSome
    rw [length]
    rfl
  obtain ⟨words, read⟩ := Option.isSome_iff_exists.mp whole
  unfold surveyTurn isCodeBlock
  rw [read]
  rfl

theorem foldlM_blocks (n : Nat) (inside : n ≤ fullBlocks data) :
    ((List.range n).map blockOffset).foldlM (surveyTurn data) ([], none) =
      some (((scan (isCodeBlock data) (List.range n)).1.map offsets),
        (scan (isCodeBlock data) (List.range n)).2.map blockOffset) := by
  induction n with
  | zero => rfl
  | succ n ih =>
    have fits : blockOffset (n + 1) ≤ data.length := by
      unfold fullBlocks at inside
      unfold blockOffset
      unfold baseRom blk at *
      omega
    rw [List.range_succ, List.map_append, List.foldlM_append, ih (by omega)]
    rw [List.map_singleton, Option.bind_eq_bind, Option.bind_some, List.foldlM_cons,
      surveyTurn_block fits, Option.bind_eq_bind, Option.bind_some, List.foldlM_nil, scan_snoc]
    exact congrArg some (advance_map blockOffset (isCodeBlock data n) _ n)

/-- The number of blocks `survey` tests. -/
def testedBlocks (data : Bytes) : Nat := (data.length - blk - baseRom + (blk - 1)) / blk

theorem testedBlocks_eq (data : Bytes) : testedBlocks data =
    if data.length % blk = 0 then fullBlocks data - 1 else fullBlocks data := by
  unfold testedBlocks fullBlocks baseRom blk
  split <;> omega

theorem surveyRuns_eq (data : Bytes) : surveyRuns data =
    some (finish ((scan (isCodeBlock data) (List.range (testedBlocks data))).1.map offsets,
      (scan (isCodeBlock data) (List.range (testedBlocks data))).2.map blockOffset) data.length) := by
  have inside : testedBlocks data ≤ fullBlocks data := by
    rw [testedBlocks_eq]
    split <;> omega
  have tested : pyRange baseRom (data.length - blk) blk =
      (List.range (testedBlocks data)).map blockOffset := rfl
  unfold surveyRuns
  rw [tested, foldlM_blocks _ inside]
  rfl

theorem blockOffset_increasing (i j : Nat) (less : i < j) : blockOffset i < blockOffset j :=
  blockOffset_lt.mpr less

theorem exactRuns_iff : ExactRuns data runs ↔
    runs = (extents (isCodeBlock data) (fullBlocks data)).map offsets := by
  have ascending := extents_ascending (isCodeBlock data) (fullBlocks data) blockOffset_increasing
  have member : ∀ r, r ∈ (extents (isCodeBlock data) (fullBlocks data)).map offsets ↔
      ∃ extent, IsExtent (isCodeBlock data) (fullBlocks data) extent ∧ r = offsets extent := by
    intro r
    simp only [List.mem_map, mem_extents_iff, eq_comm]
  constructor
  · intro isExact
    refine ascending_ext isExact.ascending ascending ?_ fun r => ?_
    · intro r found
      obtain ⟨extent, isExtent, rfl⟩ := (member r).mp found
      exact blockOffset_increasing _ _ isExtent.nonempty
    · rw [isExact.exact r, member r]
  · rintro rfl
    exact ⟨ascending, member⟩

/-- The run that is still open after the last block tested reaches to the end of the image. -/
theorem covered_iff {tested : Nat} (inside : k < fullBlocks data) :
    (∃ r ∈ finish ((scan (isCodeBlock data) (List.range tested)).1.map offsets,
        (scan (isCodeBlock data) (List.range tested)).2.map blockOffset) data.length,
      r.1 ≤ blockOffset k ∧ blockOffset (k + 1) ≤ r.2) ↔
    ∃ r ∈ finish (scan (isCodeBlock data) (List.range tested)) (fullBlocks data),
      r.1 ≤ k ∧ k < r.2 := by
  obtain ⟨closed, opened⟩ := scan (isCodeBlock data) (List.range tested)
  have fits : blockOffset (k + 1) ≤ data.length := by
    unfold fullBlocks at inside
    unfold blockOffset
    unfold baseRom blk at *
    omega
  simp only [mem_finish]
  constructor
  · rintro ⟨r, old | ⟨start, moved, rfl⟩, above, below⟩
    · obtain ⟨e, found, rfl⟩ := List.mem_map.mp old
      exact ⟨e, Or.inl found, blockOffset_le.mp above, blockOffset_le.mp below⟩
    · obtain ⟨first, begun, rfl⟩ := Option.map_eq_some_iff.mp moved
      exact ⟨(first, fullBlocks data), Or.inr ⟨first, begun, rfl⟩, blockOffset_le.mp above, inside⟩
  · rintro ⟨e, old | ⟨first, begun, rfl⟩, above, below⟩
    · exact ⟨offsets e, Or.inl (List.mem_map_of_mem old), blockOffset_le.mpr above,
        blockOffset_le.mpr below⟩
    · have moved : opened.map blockOffset = some (blockOffset first) :=
        Option.map_eq_some_iff.mpr ⟨first, begun, rfl⟩
      exact ⟨(blockOffset first, data.length), Or.inr ⟨_, moved, rfl⟩, blockOffset_le.mpr above, fits⟩

/-- The last full block satisfies the test as the one before it does, where the image ends with it. -/
def LastBlockAlike (data : Bytes) : Prop :=
  data.length % blk = 0 →
    endsGood (isCodeBlock data) (fullBlocks data) = endsGood (isCodeBlock data) (fullBlocks data - 1)

/-- The image is a whole number of blocks, or it has a rest and its last full block is no code. -/
def NoCodeBeforeRest (data : Bytes) : Prop :=
  data.length % blk ≠ 0 → endsGood (isCodeBlock data) (fullBlocks data) = false

theorem length_whole {n : Nat} (whole : data.length % blk = 0) (count : fullBlocks data = n + 1) :
    data.length = blockOffset (n + 1) := by
  unfold fullBlocks at count
  unfold blockOffset
  unfold baseRom blk at *
  omega

theorem exact_whole {n : Nat} (whole : data.length % blk = 0) (count : fullBlocks data = n + 1) :
    finish ((scan (isCodeBlock data) (List.range n)).1.map offsets,
        (scan (isCodeBlock data) (List.range n)).2.map blockOffset) data.length =
      (extents (isCodeBlock data) (n + 1)).map offsets ↔
    isCodeBlock data n = endsGood (isCodeBlock data) n := by
  have scanned := finish_map blockOffset (scan (isCodeBlock data) (List.range n)) (n + 1)
  rw [length_whole whole count, ← finish_next_iff]
  exact (Eq.congr_left scanned).trans offsets_injective.list_map.eq_iff

theorem exact_rest (rest : data.length % blk ≠ 0) :
    finish ((scan (isCodeBlock data) (List.range (fullBlocks data))).1.map offsets,
        (scan (isCodeBlock data) (List.range (fullBlocks data))).2.map blockOffset) data.length =
      (extents (isCodeBlock data) (fullBlocks data)).map offsets ↔
    endsGood (isCodeBlock data) (fullBlocks data) = false := by
  have held := held_scan (isCodeBlock data) (fullBlocks data)
  have apart : data.length ≠ blockOffset (fullBlocks data) := by
    intro same
    unfold blockOffset baseRom blk at same
    unfold blk at rest
    omega
  have closed := finish_map blockOffset (scan (isCodeBlock data) (List.range (fullBlocks data)))
    (fullBlocks data)
  refine (Eq.congr_right closed.symm).trans (finish_eq_iff.trans ?_)
  rw [Option.isSome_map, held.unopened]
  exact or_iff_left apart

theorem covering_whole {n : Nat} (count : fullBlocks data = n + 1) :
    (∀ k, k < fullBlocks data → (isCodeBlock data k = true ↔
      ∃ r ∈ finish (scan (isCodeBlock data) (List.range n)) (fullBlocks data), r.1 ≤ k ∧ k < r.2)) ↔
      isCodeBlock data n = endsGood (isCodeBlock data) n := by
  rw [count]
  constructor
  · intro covering
    have last := covering n (Nat.lt_succ_self n)
    rw [next_covered_iff] at last
    exact Bool.eq_iff_iff.mpr last
  · intro alike k inside
    rw [finish_next_iff.mpr alike]
    exact good_iff_mem inside

theorem lastBlockAlike_iff {n : Nat} (whole : data.length % blk = 0)
    (count : fullBlocks data = n + 1) :
    LastBlockAlike data ↔ isCodeBlock data n = endsGood (isCodeBlock data) n := by
  unfold LastBlockAlike
  rw [count, endsGood_succ, Nat.succ_sub_one]
  exact ⟨fun alike => alike whole, fun alike _ => alike⟩

/-- The runs come in order. They are the maximal runs of code blocks exactly when the last full block,
which is not tested if it ends the image, is like the one before it, and no open run reaches into a
rest; they hold the right blocks exactly when the first of the two is so. -/
theorem surveyRuns_exact_iff (data : Bytes) : ∃ runs, surveyRuns data = some runs ∧
    (runs.Pairwise fun r r' => r.2 < r'.1) ∧
    (ExactRuns data runs ↔ LastBlockAlike data ∧ NoCodeBeforeRest data) ∧
    (CoveringRuns data runs ↔ LastBlockAlike data) := by
  have ascending := finish_ascending (held_scan (isCodeBlock data) (testedBlocks data))
    blockOffset_increasing data.length
  have covering : CoveringRuns data (finish
      ((scan (isCodeBlock data) (List.range (testedBlocks data))).1.map offsets,
        (scan (isCodeBlock data) (List.range (testedBlocks data))).2.map blockOffset) data.length) ↔
      ∀ k, k < fullBlocks data → (isCodeBlock data k = true ↔
        ∃ r ∈ finish (scan (isCodeBlock data) (List.range (testedBlocks data))) (fullBlocks data),
          r.1 ≤ k ∧ k < r.2) := by
    constructor
    · intro covers k inside
      rw [← covered_iff inside]
      exact covers.covering k inside
    · intro covers
      refine ⟨ascending, fun k inside => ?_⟩
      rw [covered_iff inside]
      exact covers k inside
  refine ⟨_, surveyRuns_eq data, ascending, ?_, ?_⟩
  · rw [exactRuns_iff, testedBlocks_eq]
    by_cases whole : data.length % blk = 0
    · have noRest : NoCodeBeforeRest data := fun rest => absurd whole rest
      rw [if_pos whole, and_iff_left noRest]
      cases count : fullBlocks data with
      | zero => simp [scan, finish, extents, LastBlockAlike, count]
      | succ n => rw [Nat.succ_sub_one, exact_whole whole count, lastBlockAlike_iff whole count]
    · have alike : LastBlockAlike data := fun noRest => absurd noRest whole
      rw [if_neg whole, and_iff_right alike, exact_rest whole]
      exact ⟨fun none _ => none, fun none => none whole⟩
  · rw [covering, testedBlocks_eq]
    by_cases whole : data.length % blk = 0
    · rw [if_pos whole]
      cases count : fullBlocks data with
      | zero => simp [LastBlockAlike, count]
      | succ n =>
        rw [Nat.succ_sub_one, lastBlockAlike_iff whole count, ← covering_whole count, count]
    · have alike : LastBlockAlike data := fun noRest => absurd noRest whole
      rw [if_neg whole]
      exact iff_of_true (fun k inside => good_iff_mem inside) alike

theorem unpackWords_replicate (n : Nat) :
    unpackWords (List.replicate n [0x0C, 0x00, 0x01, 0x00]).flatten =
      some (List.replicate n 0x0C000100) := by
  induction n with
  | zero => rfl
  | succ n ih =>
    rw [List.replicate_succ, List.flatten_cons, List.replicate_succ]
    simp only [List.cons_append, List.nil_append, unpackWords, ih]
    rfl

def callsBlock : Bytes := (List.replicate 1024 [0x0C, 0x00, 0x01, 0x00]).flatten

theorem callsBlock_length : callsBlock.length = blk := by
  unfold callsBlock
  rw [List.length_flatten, List.map_replicate, List.sum_replicate_nat]
  rfl

/-- An image of two blocks: the header and one block of calls. -/
def callsRom : Bytes :=
  [0x80, 0x37, 0x12, 0x40] ++ List.replicate 4092 0 ++ callsBlock

theorem callsRom_length : callsRom.length = 2 * blk := by
  unfold callsRom
  rw [List.length_append, List.length_append, List.length_replicate, callsBlock_length]
  rfl

theorem callsRom_block : isCodeBlock callsRom 0 = true := by
  have block : (callsRom.drop (blockOffset 0)).take blk = callsBlock := by
    have header : blockOffset 0 =
        ([0x80, 0x37, 0x12, 0x40] ++ List.replicate 4092 (0 : UInt8)).length := by
      rw [List.length_append, List.length_replicate]
      rfl
    unfold callsRom
    rw [header, List.drop_left, List.take_of_length_le callsBlock_length.le]
  unfold isCodeBlock blockWords
  rw [block, callsBlock, unpackWords_replicate, Option.any_some]
  unfold isCode
  rw [List.countP_replicate, List.countP_replicate, List.length_replicate]
  decide

/-- The block of calls is the last one and is never tested. -/
theorem last_block_untested :
    ¬∃ runs, surveyRuns callsRom = some runs ∧ ExactRuns callsRom runs := by
  have tested : testedBlocks callsRom = 0 := by
    unfold testedBlocks
    rw [callsRom_length]
    rfl
  have whole : fullBlocks callsRom = 1 := by
    unfold fullBlocks
    rw [callsRom_length]
    rfl
  rintro ⟨runs, surveyed, isExact⟩
  rw [surveyRuns_eq, tested] at surveyed
  have empty : runs = [] := (Option.some.inj surveyed).symm
  have extent : IsExtent (isCodeBlock callsRom) (fullBlocks callsRom) (0, 1) := by
    rw [whole, isExtent_last_succ_iff]
    exact ⟨callsRom_block, Or.inr ⟨rfl, rfl⟩⟩
  have missed := (isExact.exact _).mpr ⟨(0, 1), extent, rfl⟩
  rw [empty] at missed
  exact absurd missed (List.not_mem_nil)

end Rayman2Recomp
