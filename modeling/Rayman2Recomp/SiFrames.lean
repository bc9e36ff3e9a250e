import Rayman2Recomp.SiPak
import Rayman2Recomp.PakSlots

open BlockArray ByteMemory Disk

namespace Rayman2Recomp

inductive Shape
  | status
  | read
  | write
deriving DecidableEq

def Shape.header : Shape → List UInt8
  | .status => [0x01, 0x03, 0x00]
  | .read => [0xFF, 0x03, 0x21, 0x02]
  | .write => [0xFF, 0x23, 0x01, 0x03]

/-- The header of that shape stands at `base`. -/
def HeaderAt (rdram : Rdram) (base : Int) (shape : Shape) : Prop :=
  ∀ (k : Nat) (byte : UInt8), shape.header[k]? = some byte → rdram (base + k) = byte

/-- A frame of that shape stands at that channel, behind zero bytes alone. -/
def FrameAt (rdram : Rdram) (pif : Int) (c : Fin 4) (shape : Shape) : Prop :=
  (∀ i : Nat, i < c.val → rdram (pif + i) = 0) ∧ HeaderAt rdram (pif + c.val) shape

def serve (w : SiState) (rdram : Rdram) (pif : Int) (c : Fin 4) (o : LoadOutcome) :
    Shape → SiState × Rdram
  | .status => (w, handleStatus rdram (pif + c.val) c)
  | .read => handlePakBlock w rdram (pif + c.val) c kCmdReadPak o
  | .write => handlePakBlock w rdram (pif + c.val) c kCmdWritePak o

theorem fillerOk_iff {rdram : Rdram} {pif : Int} {c : Fin 4} :
    fillerOk rdram pif c = true ↔ ∀ i : Nat, i < c.val → rdram (pif + i) = 0 := by
  simp [fillerOk, memBU, loadByte]

theorem headerAt_status {rdram : Rdram} {base : Int} :
    HeaderAt rdram base .status ↔
      rdram (base + 0) = 0x01 ∧ rdram (base + 1) = 0x03 ∧ rdram (base + 2) = 0x00 := by
  constructor
  · exact fun h => ⟨h 0 _ rfl, h 1 _ rfl, h 2 _ rfl⟩
  · rintro ⟨h0, h1, h2⟩ k byte hk
    match k, hk with
    | 0, rfl => exact h0
    | 1, rfl => exact h1
    | 2, rfl => exact h2

theorem fourBytes_iff {rdram : Rdram} {base : Int} {b0 b1 b2 b3 : UInt8} :
    (∀ (k : Nat) (byte : UInt8), [b0, b1, b2, b3][k]? = some byte → rdram (base + k) = byte) ↔
      rdram (base + 0) = b0 ∧ rdram (base + 1) = b1 ∧ rdram (base + 2) = b2 ∧
        rdram (base + 3) = b3 := by
  constructor
  · exact fun h => ⟨h 0 _ rfl, h 1 _ rfl, h 2 _ rfl, h 3 _ rfl⟩
  · rintro ⟨h0, h1, h2, h3⟩ k byte hk
    match k, hk with
    | 0, rfl => exact h0
    | 1, rfl => exact h1
    | 2, rfl => exact h2
    | 3, rfl => exact h3

theorem headerAt_read {rdram : Rdram} {base : Int} :
    HeaderAt rdram base .read ↔ rdram (base + 0) = 0xFF ∧ rdram (base + 1) = 0x03 ∧
      rdram (base + 2) = 0x21 ∧ rdram (base + 3) = 0x02 := fourBytes_iff

theorem headerAt_write {rdram : Rdram} {base : Int} :
    HeaderAt rdram base .write ↔ rdram (base + 0) = 0xFF ∧ rdram (base + 1) = 0x23 ∧
      rdram (base + 2) = 0x01 ∧ rdram (base + 3) = 0x03 := fourBytes_iff

theorem isStatusQuery_iff {rdram : Rdram} {base : Int} :
    isStatusQuery rdram base = true ↔ HeaderAt rdram base .status := by
  rw [headerAt_status]
  simp only [isStatusQuery, memBU, loadByte, Bool.and_eq_true, beq_iff_eq, kCmdRequestStatus,
    and_assoc]

theorem isPakBlock_iff {rdram : Rdram} {base : Int} :
    isPakBlock rdram base = true ↔ HeaderAt rdram base .read ∨ HeaderAt rdram base .write := by
  rw [headerAt_read, headerAt_write]
  simp only [isPakBlock, memBU, loadByte, Bool.and_eq_true, Bool.or_eq_true, beq_iff_eq,
    kCmdReadPak, kCmdWritePak]
  tauto

theorem FrameAt.first {rdram : Rdram} {pif : Int} {c : Fin 4} {shape : Shape}
    (h : FrameAt rdram pif c shape) : rdram (pif + c.val) ≠ 0 := by
  have byte : ∀ v, shape.header[0]? = some v → rdram (pif + c.val) = v :=
    fun v hv => by simpa using h.2 0 v hv
  cases shape with
  | status => rw [byte _ rfl]; decide
  | read => rw [byte _ rfl]; decide
  | write => rw [byte _ rfl]; decide

theorem frameAt_unique {rdram : Rdram} {pif : Int} {c d : Fin 4} {s t : Shape}
    (h : FrameAt rdram pif c s) (k : FrameAt rdram pif d t) : c = d ∧ s = t := by
  have channel : c = d := by
    rcases Nat.lt_trichotomy c.val d.val with lt | eq | gt
    · exact absurd (k.1 c.val lt) h.first
    · exact Fin.ext eq
    · exact absurd (h.1 d.val gt) k.first
  subst d
  refine ⟨rfl, ?_⟩
  cases s <;> cases t <;> first
    | rfl
    | exact absurd ((h.2 0 _ rfl).symm.trans (k.2 0 _ rfl)) (by decide)
    | exact absurd ((h.2 1 _ rfl).symm.trans (k.2 1 _ rfl)) (by decide)

/-- The scan gets to a frame of its own channel and tells its shape. -/
theorem FrameAt.recognised {rdram : Rdram} {pif : Int} {c : Fin 4} {shape : Shape}
    (h : FrameAt rdram pif c shape) :
    fillerOk rdram pif c = true ∧ isStatusQuery rdram (pif + c.val) = decide (shape = .status) ∧
      (shape ≠ .status → isPakBlock rdram (pif + c.val) = true) := by
  refine ⟨fillerOk_iff.mpr h.1, ?_, fun pak => ?_⟩
  · rw [Bool.eq_iff_iff, isStatusQuery_iff, decide_eq_true_iff]
    exact ⟨fun status => (frameAt_unique h ⟨h.1, status⟩).2, fun status => status ▸ h.2⟩
  · rw [isPakBlock_iff]
    cases shape with
    | status => exact absurd rfl pak
    | read => exact Or.inl h.2
    | write => exact Or.inr h.2

/-- A channel before that of the frame is filler, and nothing to answer. -/
theorem FrameAt.skipped {rdram : Rdram} {pif : Int} {c d : Fin 4} {shape : Shape}
    (h : FrameAt rdram pif c shape) (below : d < c) :
    fillerOk rdram pif d = true ∧ isStatusQuery rdram (pif + d.val) = false ∧
      isPakBlock rdram (pif + d.val) = false := by
  have zero : rdram (pif + d.val) = 0 := h.1 d.val below
  refine ⟨fillerOk_iff.mpr fun i hi => h.1 i (lt_trans hi below), ?_, ?_⟩
  · simp [isStatusQuery, memBU, loadByte, zero]
  · simp [isPakBlock, memBU, loadByte, zero]

theorem unrecognised {rdram : Rdram} {pif : Int} {c : Fin 4}
    (h : ∀ c shape, ¬FrameAt rdram pif c shape) (filler : fillerOk rdram pif c = true) :
    isStatusQuery rdram (pif + c.val) = false ∧ isPakBlock rdram (pif + c.val) = false := by
  have zeros := fillerOk_iff.mp filler
  constructor
  · rw [Bool.eq_false_iff, Ne, isStatusQuery_iff]
    exact fun header => h c .status ⟨zeros, header⟩
  · rw [Bool.eq_false_iff, Ne, isPakBlock_iff]
    rintro (header | header)
    · exact h c .read ⟨zeros, header⟩
    · exact h c .write ⟨zeros, header⟩

theorem serviceChannels_matched {w : SiState} {rdram : Rdram} {pif : Int} {o : LoadOutcome}
    {c : Fin 4} {shape : Shape} (h : FrameAt rdram pif c shape) (before : List (Fin 4))
    {rest : List (Fin 4)} (lower : ∀ d ∈ before, d < c) :
    serviceChannels w rdram pif o (before ++ c :: rest) = (true, serve w rdram pif c o shape) := by
  induction before with
  | nil =>
    obtain ⟨filler, status, pak⟩ := h.recognised
    cases shape with
    | status => simp [serviceChannels, filler, status, serve]
    | read =>
      have cmd : memBU rdram 3 (pif + c.val) = kCmdReadPak := (headerAt_read.mp h.2).2.2.2
      simp [serviceChannels, filler, status, pak, cmd, serve]
    | write =>
      have cmd : memBU rdram 3 (pif + c.val) = kCmdWritePak := (headerAt_write.mp h.2).2.2.2
      simp [serviceChannels, filler, status, pak, cmd, serve]
  | cons d before ih =>
    obtain ⟨filler, status, pak⟩ := h.skipped (lower d List.mem_cons_self)
    simp only [List.cons_append, serviceChannels, filler, status, pak, Bool.not_true,
      Bool.false_eq_true, if_false]
    exact ih fun e he => lower e (List.mem_cons_of_mem d he)

theorem channels_split (c : Fin 4) :
    ∃ before rest, List.finRange 4 = before ++ c :: rest ∧ ∀ d ∈ before, d < c := by
  refine ⟨(List.finRange 4).take c.val, (List.finRange 4).drop (c.val + 1), ?_, ?_⟩
  · exact (by decide : ∀ c : Fin 4,
      List.finRange 4 = (List.finRange 4).take c.val ++ c :: (List.finRange 4).drop (c.val + 1)) c
  · exact (by decide : ∀ c : Fin 4, ∀ d ∈ (List.finRange 4).take c.val, d < c) c

/-- The one frame that stands in the buffer is the one served. -/
theorem serviceFrame_matched {w : SiState} {rdram : Rdram} {pif : Int} {o : LoadOutcome}
    {c : Fin 4} {shape : Shape} (h : FrameAt rdram pif c shape) :
    serviceFrame w rdram pif o = (true, serve w rdram pif c o shape) := by
  obtain ⟨before, rest, split, lower⟩ := channels_split c
  rw [serviceFrame, split]
  exact serviceChannels_matched h before lower

theorem serviceChannels_unmatched {w : SiState} {rdram : Rdram} {pif : Int} {o : LoadOutcome}
    (h : ∀ c shape, ¬FrameAt rdram pif c shape) (channels : List (Fin 4)) :
    serviceChannels w rdram pif o channels = (false, w, rdram) := by
  induction channels with
  | nil => rfl
  | cons c rest ih =>
    unfold serviceChannels
    cases filler : fillerOk rdram pif c with
    | false => rfl
    | true =>
      obtain ⟨status, pak⟩ := unrecognised h filler
      simp only [status, pak, Bool.not_true, Bool.false_eq_true, if_false]
      exact ih

theorem serviceFrame_unmatched {w : SiState} {rdram : Rdram} {pif : Int} {o : LoadOutcome}
    (h : ∀ c shape, ¬FrameAt rdram pif c shape) :
    serviceFrame w rdram pif o = (false, w, rdram) := serviceChannels_unmatched h _

end Rayman2Recomp
