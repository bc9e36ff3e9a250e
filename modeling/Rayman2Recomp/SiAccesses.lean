import Rayman2Recomp.AccessLog
import Rayman2Recomp.SiFrames

open AccessLog ByteMemory Disk

namespace Rayman2Recomp

/-- The part of `handlePakBlock` between the loads and the stores. -/
def pakTransfer (w : SiState) (port : Fin 4) (block : Nat) (isWrite : Bool) (data : Block)
    (o : LoadOutcome) : SiState × Block :=
  if block = kBlockDetect then
    if isWrite then ({ w with detect := Function.update w.detect port data }, data)
    else (w, w.detect port)
  else if block < kBlockDetect then
    if isWrite then ({ w with store := (writeBlock w.store port.val block data o).2 }, data)
    else
      match readBlock w.store port.val block o with
      | (some out, store) => ({ w with store := store }, out)
      | (none, store) => ({ w with store := store }, data)
  else (w, data)

def tracedMemBU (offset base : Int) : Traced UInt8 := load (base + offset)

def tracedMemB (offset base : Int) (value : UInt8) : Traced Unit := store (base + offset) value

def tracedHandlePakBlock (w : SiState) (base : Int) (port : Fin 4) (cmd : UInt8)
    (o : LoadOutcome) : Traced SiState := do
  let high ← tracedMemBU 4 base
  let low ← tracedMemBU 5 base
  let block := ((high.toNat <<< 8) ||| low.toNat) >>> 5
  let isWrite := cmd == kCmdWritePak
  let data : Block ← bif isWrite then loadBlock kBlockSize (base + 6) else pure fun _ => 0
  let moved := pakTransfer w port block isWrite data o
  bif isWrite then pure () else storeBlock (base + 6) moved.2
  tracedMemB 0x26 base (dataCrc moved.2)
  return moved.1

def tracedHandleStatus (base : Int) (port : Fin 4) : Traced Unit := do
  tracedMemB 3 base kContTypeNormal.toUInt8
  tracedMemB 4 base (kContTypeNormal >>> 8).toUInt8
  tracedMemB 5 base (if present port then kContCardOn else 0x00)

/-- The filler loop breaks at the first byte that is not zero. -/
def tracedFillerOk (pif : Int) : List Nat → Traced Bool
  | [] => return true
  | i :: rest => do
    let filler ← tracedMemBU 0 (pif + i)
    bif filler != 0x00 then return false else tracedFillerOk pif rest

def tracedServiceChannels (w : SiState) (pif : Int) (o : LoadOutcome) :
    List (Fin 4) → Traced (Bool × SiState)
  | [] => return (false, w)
  | channel :: rest => do
    let base := pif + channel.val
    let filler ← tracedFillerOk pif (List.range channel.val)
    bif !filler then return (false, w) else do
    let shortTx ← tracedMemBU 0 base
    let shortRx ← tracedMemBU 1 base
    let shortCmd ← tracedMemBU 2 base
    bif shortTx == 0x01 && shortRx == 0x03 && shortCmd == kCmdRequestStatus then do
      tracedHandleStatus base channel
      return (true, w)
    else do
    let dummy ← tracedMemBU 0 base
    let tx ← tracedMemBU 1 base
    let rx ← tracedMemBU 2 base
    let cmd ← tracedMemBU 3 base
    bif dummy == 0xFF && ((cmd == kCmdReadPak && tx == 0x03 && rx == 0x21) ||
        (cmd == kCmdWritePak && tx == 0x23 && rx == 0x01)) then do
      let w ← tracedHandlePakBlock w base channel cmd o
      return (true, w)
    else tracedServiceChannels w pif o rest

def tracedServiceFrame (w : SiState) (pif : Int) (o : LoadOutcome) : Traced (Bool × SiState) :=
  tracedServiceChannels w pif o (List.finRange 4)

/-- `__osSiRawStartDma` with every `MEM_BU` and `MEM_B`; with `RAYMAN2_PAKTRACE` set it also
prints twelve bytes of a frame it does not know. -/
def tracedOsSiRawStartDma (traceEnabled : Bool) (w : SiState) (r4 r5 : BitVec 64)
    (o : LoadOutcome) : Traced SiState := do
  let direction := (r4.setWidth 32).toInt
  if direction = 0 ∧ usableAddress r5 then do
    let served ← tracedServiceFrame w (siAddress r5) o
    bif !served.1 && traceEnabled then do
      let _ ← loadBlock 12 (siAddress r5)
      return served.2
    else return served.2
  else return w

theorem handlePakBlock_eq (w : SiState) (rdram : Rdram) (base : Int) (port : Fin 4) (cmd : UInt8)
    (o : LoadOutcome) :
    handlePakBlock w rdram base port cmd o =
      let isWrite := cmd == kCmdWritePak
      let data : Block := if isWrite then fun i => memBU rdram (6 + i.val) base else fun _ => 0
      let moved := pakTransfer w port (frameAddress rdram base >>> 5) isWrite data o
      (moved.1, memB (if isWrite then rdram else storeBytes rdram (base + 6) moved.2) 0x26 base
        (dataCrc moved.2)) := rfl

/-- The bytes a pak block touches, in either direction. -/
def pakTouched (base : Int) : List Int :=
  (base + 4) :: (base + 5) ::
    ((List.finRange kBlockSize).map (fun i => base + 6 + (i.val : Int)) ++ [base + 0x26])

theorem run_tracedHandlePakBlock (w : SiState) (rdram : Rdram) (base : Int) (port : Fin 4)
    (cmd : UInt8) (o : LoadOutcome) :
    (tracedHandlePakBlock w base port cmd o).run rdram =
      ⟨(handlePakBlock w rdram base port cmd o).1, (handlePakBlock w rdram base port cmd o).2,
        pakTouched base⟩ := by
  rw [handlePakBlock_eq]
  have offset : ∀ i : Fin kBlockSize, base + 6 + (i.val : Int) = base + (6 + i.val) := by
    intro i
    omega
  cases isWrite : cmd == kCmdWritePak with
  | true =>
    simp [tracedHandlePakBlock, tracedMemBU, tracedMemB, isWrite, pakTouched, frameAddress, memBU,
      memB, loadByte, offset]
  | false =>
    simp [tracedHandlePakBlock, tracedMemBU, tracedMemB, isWrite, pakTouched, frameAddress, memBU,
      memB, loadByte]

theorem run_tracedHandleStatus (rdram : Rdram) (base : Int) (port : Fin 4) :
    (tracedHandleStatus base port).run rdram =
      ⟨(), handleStatus rdram base port, [base + 3, base + 4, base + 5]⟩ := rfl

theorem run_tracedFillerOk (rdram : Rdram) (pif : Int) (i : Nat) (is : List Nat) :
    (tracedFillerOk pif (i :: is)).run rdram =
      let later := (tracedFillerOk pif is).run rdram
      bif rdram (pif + i) != 0x00 then ⟨false, rdram, [pif + i]⟩
      else ⟨later.value, later.mem, (pif + i) :: later.touched⟩ := by
  simp only [tracedFillerOk, tracedMemBU, run_bind, run_load, run_cond, Int.add_zero]
  cases rdram (pif + i) != 0x00 <;> rfl

theorem tracedFillerOk_value (rdram : Rdram) (pif : Int) (is : List Nat) :
    ((tracedFillerOk pif is).run rdram).value = is.all fun i => memBU rdram 0 (pif + i) == 0x00 := by
  induction is with
  | nil => rfl
  | cons i is ih =>
    rw [run_tracedFillerOk, List.all_cons, ← ih]
    simp only [memBU, loadByte, Int.add_zero, bne]
    cases rdram (pif + i) == 0x00 <;> rfl

theorem tracedFillerOk_mem (rdram : Rdram) (pif : Int) (is : List Nat) :
    ((tracedFillerOk pif is).run rdram).mem = rdram := by
  induction is with
  | nil => rfl
  | cons i is ih =>
    rw [run_tracedFillerOk]
    cases rdram (pif + i) != 0x00 with
    | true => rfl
    | false => exact ih

theorem tracedFillerOk_touched {rdram : Rdram} {pif : Int} {is : List Nat} :
    ∀ a ∈ ((tracedFillerOk pif is).run rdram).touched, ∃ i ∈ is, a = pif + (i : Int) := by
  induction is with
  | nil => exact fun a ha => absurd ha List.not_mem_nil
  | cons i is ih =>
    intro a ha
    rw [run_tracedFillerOk] at ha
    cases filler : rdram (pif + i) != 0x00 with
    | true =>
      rw [filler] at ha
      exact ⟨i, List.mem_cons_self, List.mem_singleton.mp ha⟩
    | false =>
      rw [filler] at ha
      rcases List.mem_cons.mp ha with here | later
      · exact ⟨i, List.mem_cons_self, here⟩
      · obtain ⟨j, hj, at_j⟩ := ih a later
        exact ⟨j, List.mem_cons_of_mem i hj, at_j⟩

theorem tracedFillerOk_within (rdram : Rdram) (pif : Int) (c : Fin 4) :
    Within pif (pif + c.val - 1) ((tracedFillerOk pif (List.range c.val)).run rdram).touched := by
  intro a ha
  obtain ⟨i, hi, rfl⟩ := tracedFillerOk_touched a ha
  have := List.mem_range.mp hi
  omega

/-- What the scan of one channel does: it ends at a filler byte, answers, or goes on. -/
theorem run_tracedServiceChannels (w : SiState) (rdram : Rdram) (pif : Int) (o : LoadOutcome)
    (c : Fin 4) (rest : List (Fin 4)) :
    let base := pif + c.val
    let filler := ((tracedFillerOk pif (List.range c.val)).run rdram).touched
    let short := filler ++ [base, base + 1, base + 2]
    let long := short ++ [base, base + 1, base + 2, base + 3]
    (tracedServiceChannels w pif o (c :: rest)).run rdram =
      bif !fillerOk rdram pif c then ⟨(false, w), rdram, filler⟩
      else bif isStatusQuery rdram base then
        ⟨(true, w), handleStatus rdram base c, short ++ [base + 3, base + 4, base + 5]⟩
      else bif isPakBlock rdram base then
        let served := handlePakBlock w rdram base c (memBU rdram 3 base) o
        ⟨(true, served.1), served.2, long ++ pakTouched base⟩
      else
        let later := (tracedServiceChannels w pif o rest).run rdram
        ⟨later.value, later.mem, long ++ later.touched⟩ := by
  have value : ((tracedFillerOk pif (List.range c.val)).run rdram).value = fillerOk rdram pif c :=
    tracedFillerOk_value rdram pif (List.range c.val)
  have mem := tracedFillerOk_mem rdram pif (List.range c.val)
  have status : (rdram (pif + c.val) == 0x01 && rdram (pif + c.val + 1) == 0x03 &&
      rdram (pif + c.val + 2) == kCmdRequestStatus) = isStatusQuery rdram (pif + c.val) := by
    simp [isStatusQuery, memBU, loadByte]
  have pak : (rdram (pif + c.val) == 0xFF && ((rdram (pif + c.val + 3) == kCmdReadPak &&
      rdram (pif + c.val + 1) == 0x03 && rdram (pif + c.val + 2) == 0x21) ||
        (rdram (pif + c.val + 3) == kCmdWritePak && rdram (pif + c.val + 1) == 0x23 &&
          rdram (pif + c.val + 2) == 0x01))) = isPakBlock rdram (pif + c.val) := by
    simp [isPakBlock, memBU, loadByte]
  simp only [tracedServiceChannels, tracedMemBU, run_bind, run_cond, run_load, run_pure, value, mem,
    run_tracedHandleStatus, run_tracedHandlePakBlock, Int.add_zero, status, pak]
  cases fillerOk rdram pif c with
  | false => simp
  | true =>
    cases isStatusQuery rdram (pif + c.val) with
    | true => simp
    | false =>
      cases isPakBlock rdram (pif + c.val) with
      | true => simp [memBU, loadByte]
      | false => simp

/-- The logged scan is the scan: the log changes nothing of what is answered. -/
theorem tracedServiceChannels_erase (w : SiState) (rdram : Rdram) (pif : Int) (o : LoadOutcome)
    (channels : List (Fin 4)) :
    let out := (tracedServiceChannels w pif o channels).run rdram
    serviceChannels w rdram pif o channels = (out.value.1, out.value.2, out.mem) := by
  induction channels with
  | nil => rfl
  | cons c rest ih =>
    rw [run_tracedServiceChannels]
    cases filler : fillerOk rdram pif c with
    | false => simp [serviceChannels, filler]
    | true =>
      cases status : isStatusQuery rdram (pif + c.val) with
      | true => simp [serviceChannels, filler, status]
      | false =>
        cases pak : isPakBlock rdram (pif + c.val) with
        | true => simp [serviceChannels, filler, status, pak]
        | false => simpa [serviceChannels, filler, status, pak] using ih

theorem tracedOsSiRawStartDma_erase (traceEnabled : Bool) (w : SiState) (rdram : Rdram)
    (r4 r5 : BitVec 64) (o : LoadOutcome) :
    let out := (tracedOsSiRawStartDma traceEnabled w r4 r5 o).run rdram
    osSiRawStartDma w rdram r4 r5 o = ⟨out.value, out.mem, 0, 1⟩ := by
  have frame := tracedServiceChannels_erase w rdram (siAddress r5) o (List.finRange 4)
  unfold osSiRawStartDma tracedOsSiRawStartDma serviceFrame tracedServiceFrame
  by_cases h : (r4.setWidth 32).toInt = 0 ∧ usableAddress r5 = true
  · simp only [if_pos h, frame, run_bind, run_cond, run_loadBlock, run_pure]
    cases !((tracedServiceChannels w (siAddress r5) o (List.finRange 4)).run rdram).value.1 &&
      traceEnabled <;> rfl
  · simp only [if_neg h]
    rfl

/-- The zero bytes before channel `c`, which let the scan get to it. -/
def ScanReaches (rdram : Rdram) (pif : Int) (c : Fin 4) : Prop :=
  ∀ i : Nat, i < c.val → rdram (pif + i) = 0

/-- A buffer whose frame, or whose scan when there is none, ends before the 8 MiB do. -/
structure FitsRdram (traceEnabled : Bool) (rdram : Rdram) (pif : Int) : Prop where
  status : ∀ c, FrameAt rdram pif c .status → pif + c.val + 5 < -0x80000000 + 0x800000
  pak : ∀ c shape, shape ≠ .status → FrameAt rdram pif c shape →
    pif + c.val + 0x26 < -0x80000000 + 0x800000
  scan : (∀ c shape, ¬FrameAt rdram pif c shape) →
    (∀ c, ScanReaches rdram pif c → pif + c.val + 3 < -0x80000000 + 0x800000) ∧
      (traceEnabled = true → pif + 11 < -0x80000000 + 0x800000)

/-- A game address of the 8 MiB, as the sign-extended registers have it. -/
def InRdram (a : Int) : Prop := -0x80000000 ≤ a ∧ a < -0x80000000 + 0x800000

/-- The last byte a frame of that shape has. -/
def Shape.last : Shape → Nat
  | .status => 5
  | .read | .write => 0x26

theorem Shape.last_ge (shape : Shape) : 5 ≤ shape.last := by
  cases shape with
  | status => exact Nat.le_refl 5
  | read | write => exact (by decide : 5 ≤ 0x26)

theorem pakTouched_spans (base : Int) : Reaches (base + 4) (base + 0x26) (pakTouched base) := by
  constructor
  · intro a ha
    simp only [pakTouched, List.mem_cons, List.mem_append, List.mem_map, List.not_mem_nil,
      or_false] at ha
    rcases ha with rfl | rfl | ⟨i, -, rfl⟩ | rfl
    · omega
    · omega
    · have : i.val < 32 := i.isLt
      omega
    · omega
  · simp [pakTouched]

/-- What the scan of a channel loads, with the bytes of its long header or without. -/
theorem scan_within (rdram : Rdram) (pif : Int) (c : Fin 4) (bytes : List Int) (top : Int)
    (fits : Within (pif + c.val) top bytes) (above : pif + c.val ≤ top + 1) :
    Within pif top (((tracedFillerOk pif (List.range c.val)).run rdram).touched ++ bytes) := by
  refine ((tracedFillerOk_within rdram pif c).mono (by omega)).append fun a ha => ?_
  have := fits a ha
  omega

theorem header_within (base : Int) : Within base (base + 3)
    ([base, base + 1, base + 2] ++ [base, base + 1, base + 2, base + 3]) := by
  intro a ha
  simp only [List.cons_append, List.nil_append, List.mem_cons, List.not_mem_nil, or_false] at ha
  omega

/-- Serving a frame touches nothing past its last byte, and that byte. -/
theorem tracedServiceChannels_matched {w : SiState} {rdram : Rdram} {pif : Int} {o : LoadOutcome}
    {c : Fin 4} {shape : Shape} (h : FrameAt rdram pif c shape) (before : List (Fin 4))
    {rest : List (Fin 4)} (lower : ∀ d ∈ before, d < c) :
    Reaches pif (pif + c.val + shape.last)
      ((tracedServiceChannels w pif o (before ++ c :: rest)).run rdram).touched := by
  induction before with
  | nil =>
    obtain ⟨filler, status, pak⟩ := h.recognised
    rw [List.nil_append, run_tracedServiceChannels]
    have header := scan_within rdram pif c _ _ (header_within (pif + c.val)) (by omega)
    have served (answer : shape ≠ .status) : shape.last = 0x26 ∧
        isStatusQuery rdram (pif + c.val) = false := by
      rw [status, decide_eq_false answer]
      cases shape with
      | status => exact absurd rfl answer
      | read | write => exact ⟨rfl, rfl⟩
    by_cases answer : shape = .status
    · subst answer
      simp only [filler, status, Bool.not_true, cond_false, decide_true, cond_true,
        List.append_assoc]
      refine ⟨scan_within rdram pif c _ _ (fun a ha => ?_) ?_, ?_⟩
      · simp only [List.cons_append, List.nil_append, List.mem_cons, List.not_mem_nil,
          or_false] at ha
        simp only [Shape.last]
        omega
      · simp only [Shape.last]
        omega
      · simp [Shape.last]
    · obtain ⟨last, other⟩ := served answer
      simp only [filler, other, pak answer, Bool.not_true, cond_false, cond_true, last]
      rw [List.append_assoc _ [_, _, _]]
      have block := pakTouched_spans (pif + c.val)
      refine ⟨(header.mono (by omega)).append fun a ha => ?_, List.mem_append_right _ block.last⟩
      have := block.within a ha
      omega
  | cons d before ih =>
    have below := lower d List.mem_cons_self
    obtain ⟨filler, status, pak⟩ := h.skipped below
    have later := ih fun e he => lower e (List.mem_cons_of_mem d he)
    rw [List.cons_append, run_tracedServiceChannels]
    simp only [filler, status, pak, Bool.not_true, cond_false, List.append_assoc]
    rw [← List.append_assoc [_, _, _], ← List.append_assoc]
    have room := shape.last_ge
    refine later.after (scan_within rdram pif d _ _ ((header_within _).mono ?_) ?_)
    · omega
    · omega

/-- With no frame to serve, the scan loads the long header of every channel it gets to. -/
theorem tracedServiceChannels_unmatched {w : SiState} {rdram : Rdram} {pif : Int}
    {o : LoadOutcome} (h : ∀ c shape, ¬FrameAt rdram pif c shape) (c : Fin 4)
    (rest : List (Fin 4)) :
    let filler := ((tracedFillerOk pif (List.range c.val)).run rdram).touched
    let later := ((tracedServiceChannels w pif o rest).run rdram).touched
    ((tracedServiceChannels w pif o (c :: rest)).run rdram).touched =
      bif fillerOk rdram pif c then
        (filler ++ ([pif + c.val, pif + c.val + 1, pif + c.val + 2] ++
          [pif + c.val, pif + c.val + 1, pif + c.val + 2, pif + c.val + 3])) ++ later
      else filler := by
  rw [run_tracedServiceChannels]
  cases filler : fillerOk rdram pif c with
  | false => rfl
  | true =>
    obtain ⟨status, pak⟩ := unrecognised h filler
    simp only [status, pak, Bool.not_true, cond_false, cond_true, List.append_assoc]

theorem scanReaches_iff {rdram : Rdram} {pif : Int} {c : Fin 4} :
    fillerOk rdram pif c = true ↔ ScanReaches rdram pif c := fillerOk_iff

/-- One channel of a scan that finds nothing, after channels that were filler. -/
theorem unmatched_within {w : SiState} {rdram : Rdram} {pif : Int} {o : LoadOutcome}
    (h : ∀ c shape, ¬FrameAt rdram pif c shape) (c : Fin 4) {rest : List (Fin 4)}
    (reached : ∀ i : Nat, i + 1 < c.val → rdram (pif + i) = 0)
    (later : ScanReaches rdram pif c →
      ∀ a ∈ ((tracedServiceChannels w pif o rest).run rdram).touched,
        ∃ d, ScanReaches rdram pif d ∧ pif ≤ a ∧ a ≤ pif + d.val + 3) :
    ∀ a ∈ ((tracedServiceChannels w pif o (c :: rest)).run rdram).touched,
      ∃ d, ScanReaches rdram pif d ∧ pif ≤ a ∧ a ≤ pif + d.val + 3 := by
  intro a ha
  rw [tracedServiceChannels_unmatched h] at ha
  cases filler : fillerOk rdram pif c with
  | true =>
    rw [filler, cond_true] at ha
    have zeros := scanReaches_iff.mp filler
    rcases List.mem_append.mp ha with here | ha
    · have := scan_within rdram pif c _ _ (header_within _) (by omega) a here
      exact ⟨c, zeros, this.1, this.2⟩
    · exact later zeros a ha
  | false =>
    rw [filler, cond_false] at ha
    have bounds := tracedFillerOk_within rdram pif c a ha
    have previous : c.val - 1 < 4 := by omega
    refine ⟨⟨c.val - 1, previous⟩, fun i hi => reached i (by simp only at hi; omega), bounds.1, ?_⟩
    simp only
    omega

theorem unmatched_reads {w : SiState} {rdram : Rdram} {pif : Int} {o : LoadOutcome}
    (h : ∀ c shape, ¬FrameAt rdram pif c shape) {c : Fin 4} (zeros : ScanReaches rdram pif c)
    (before : List (Fin 4)) {rest : List (Fin 4)} (lower : ∀ d ∈ before, d < c) :
    pif + c.val + 3 ∈ ((tracedServiceChannels w pif o (before ++ c :: rest)).run rdram).touched := by
  induction before with
  | nil =>
    rw [List.nil_append, tracedServiceChannels_unmatched h, scanReaches_iff.mpr zeros]
    simp
  | cons d before ih =>
    have filler : fillerOk rdram pif d = true :=
      scanReaches_iff.mpr fun i hi => zeros i (lt_trans hi (lower d List.mem_cons_self))
    rw [List.cons_append, tracedServiceChannels_unmatched h, filler]
    exact List.mem_append_right _ (ih fun e he => lower e (List.mem_cons_of_mem d he))

theorem tracedServiceFrame_unmatched {w : SiState} {rdram : Rdram} {pif : Int} {o : LoadOutcome}
    (h : ∀ c shape, ¬FrameAt rdram pif c shape) :
    ∀ a ∈ ((tracedServiceFrame w pif o).run rdram).touched,
      ∃ d, ScanReaches rdram pif d ∧ pif ≤ a ∧ a ≤ pif + d.val + 3 := by
  refine unmatched_within h 0 (fun i hi => absurd hi (by simp)) fun _ => ?_
  refine unmatched_within h 1 (fun i hi => absurd hi (by simp)) fun one => ?_
  refine unmatched_within h 2 (fun i hi => one i (Nat.lt_of_succ_lt_succ hi)) fun two => ?_
  refine unmatched_within h 3 (fun i hi => two i (Nat.lt_of_succ_lt_succ hi)) fun _ => ?_
  exact fun a ha => absurd ha List.not_mem_nil

theorem usable_start {r5 : BitVec 64} (h : usableAddress r5 = true) :
    InRdram (siAddress r5) := by
  have checked : (r5.setWidth 32 - 0x80000000#32).toNat < 0x00800000 := by
    simpa [usableAddress] using h
  rw [BitVec.toNat_sub] at checked
  have register := (r5.setWidth 32).isLt
  have sign := BitVec.toInt_eq_toNat_cond (r5.setWidth 32)
  have base : (0x80000000#32).toNat = 0x80000000 := rfl
  unfold InRdram siAddress
  rw [base] at checked
  rw [sign]
  split <;> omega

/-- Served calls touch the buffer alone: past the 8 MiB exactly when what they read there leads
them on. -/
theorem tracedServiceFrame_inRdram {w : SiState} {rdram : Rdram} {pif : Int} {o : LoadOutcome}
    (start : InRdram pif) (traceEnabled : Bool) :
    ((∀ a ∈ ((tracedServiceFrame w pif o).run rdram).touched, InRdram a) ∧
        (((tracedServiceFrame w pif o).run rdram).value.1 = false → traceEnabled = true →
          InRdram (pif + 11))) ↔ FitsRdram traceEnabled rdram pif := by
  have erase := tracedServiceChannels_erase w rdram pif o (List.finRange 4)
  by_cases matched : ∃ c shape, FrameAt rdram pif c shape
  · obtain ⟨c, shape, frame⟩ := matched
    obtain ⟨before, rest, split, lower⟩ := channels_split c
    have spans : Reaches pif (pif + c.val + shape.last)
        ((tracedServiceFrame w pif o).run rdram).touched := by
      rw [tracedServiceFrame, split]
      exact tracedServiceChannels_matched frame before lower
    have found : ((tracedServiceFrame w pif o).run rdram).value.1 = true := by
      have served := serviceFrame_matched (w := w) (o := o) frame
      rw [serviceFrame, erase] at served
      exact congrArg Prod.fst served
    have below : (∀ a ∈ ((tracedServiceFrame w pif o).run rdram).touched, InRdram a) ↔
        pif + c.val + shape.last < -0x80000000 + 0x800000 := spans.below_iff start.1
    simp only [found, Bool.true_eq_false, false_implies, and_true]
    refine below.trans ⟨fun fits => ?_, fun fits => ?_⟩
    · refine ⟨fun d status => ?_, fun d other pak framed => ?_, fun none => ?_⟩
      · obtain ⟨rfl, rfl⟩ := frameAt_unique frame status
        exact fits
      · obtain ⟨rfl, rfl⟩ := frameAt_unique frame framed
        cases shape with
        | status => exact absurd rfl pak
        | read | write => exact fits
      · exact absurd frame (none c shape)
    · cases shape with
      | status => exact fits.status c frame
      | read => exact fits.pak c .read (by decide) frame
      | write => exact fits.pak c .write (by decide) frame
  · have none : ∀ c shape, ¬FrameAt rdram pif c shape := fun c shape frame =>
      matched ⟨c, shape, frame⟩
    have missed : ((tracedServiceFrame w pif o).run rdram).value.1 = false := by
      have served := serviceFrame_unmatched (w := w) (o := o) none
      rw [serviceFrame, erase] at served
      exact congrArg Prod.fst served
    simp only [missed, forall_const]
    constructor
    · rintro ⟨all, dump⟩
      refine ⟨fun d framed => absurd framed (none d _), fun d _ _ framed => absurd framed (none d _),
        fun _ => ⟨fun d zeros => ?_, fun on => (dump on).2⟩⟩
      obtain ⟨before, rest, split, lower⟩ := channels_split d
      refine (all _ ?_).2
      rw [tracedServiceFrame, split]
      exact unmatched_reads none zeros before lower
    · intro fits
      obtain ⟨scan, dump⟩ := fits.scan none
      refine ⟨fun a ha => ?_, fun on => ⟨?_, dump on⟩⟩
      · obtain ⟨d, zeros, low, high⟩ := tracedServiceFrame_unmatched none a ha
        have := scan d zeros
        exact ⟨le_trans start.1 low, by omega⟩
      · have := start.1
        omega

theorem range_inRdram {n : Nat} {pif : Int} (start : InRdram pif) :
    (∀ a ∈ (List.finRange (n + 1)).map (fun i => pif + (i.val : Int)), InRdram a) ↔
      InRdram (pif + n) := by
  constructor
  · intro all
    exact all _ (List.mem_map.mpr ⟨Fin.last n, List.mem_finRange _, rfl⟩)
  · intro last a ha
    obtain ⟨i, -, rfl⟩ := List.mem_map.mp ha
    have := i.isLt
    have low := start.1
    have high := last.2
    exact ⟨by omega, by omega⟩

/-- Every byte loaded or stored lies in RDRAM exactly when the frame, or the scan that finds none,
fits below its end. -/
theorem dma_accesses_inRdram_iff (traceEnabled : Bool) (w : SiState) (rdram : Rdram)
    (r4 r5 : BitVec 64) (o : LoadOutcome) :
    (∀ a ∈ ((tracedOsSiRawStartDma traceEnabled w r4 r5 o).run rdram).touched, InRdram a) ↔
      ((r4.setWidth 32).toInt = 0 → usableAddress r5 = true →
        FitsRdram traceEnabled rdram (siAddress r5)) := by
  unfold tracedOsSiRawStartDma
  by_cases served : (r4.setWidth 32).toInt = 0 ∧ usableAddress r5 = true
  · obtain ⟨read, usable⟩ := served
    have start := usable_start usable
    rw [if_pos ⟨read, usable⟩]
    refine Iff.trans ?_ ((tracedServiceFrame_inRdram (w := w) (o := o) start traceEnabled).trans
      ⟨fun fits _ _ => fits, fun fits => fits read usable⟩)
    simp only [run_bind, run_cond, run_loadBlock, run_pure, List.mem_append, or_imp, forall_and]
    refine and_congr_right fun _ => ?_
    cases ((tracedServiceFrame w (siAddress r5) o).run rdram).value.1 with
    | true => simp
    | false =>
      cases traceEnabled with
      | false => simp
      | true =>
        have dump := range_inRdram (n := 11) start
        simp only [Bool.not_false, Bool.and_true, cond_true, List.append_nil, forall_const]
        exact dump
  · rw [if_neg served]
    exact ⟨fun _ read usable => absurd ⟨read, usable⟩ served,
      fun _ a ha => absurd ha List.not_mem_nil⟩

/-- A pak read packed into the last 32 bytes of RDRAM. -/
def topFrame : Rdram := fun a =>
  if a = -0x80000000 + 0x7FFFE0 then 0xFF
  else if a = -0x80000000 + 0x7FFFE1 then 0x03
  else if a = -0x80000000 + 0x7FFFE2 then 0x21
  else if a = -0x80000000 + 0x7FFFE3 then 0x02
  else 0x00

/-- The CRC of that read is stored six bytes past the end. -/
theorem top_frame_leaves_rdram :
    ¬∀ a ∈ ((tracedOsSiRawStartDma false ⟨PakStore.start fun _ => none, fun _ _ => 0⟩ 0 0x807FFFE0
      ⟨⟨true, true, 0⟩, ⟨true, 0⟩⟩).run topFrame).touched, InRdram a := by
  have frame : FrameAt topFrame (siAddress 0x807FFFE0) 0 .read :=
    ⟨fun i hi => absurd hi (by simp), headerAt_read.mpr (by decide)⟩
  have spans : Reaches _ _ ((tracedServiceChannels ⟨PakStore.start fun _ => none, fun _ _ => 0⟩
      (siAddress 0x807FFFE0) ⟨⟨true, true, 0⟩, ⟨true, 0⟩⟩ ([] ++ 0 :: [1, 2, 3])).run
        topFrame).touched := tracedServiceChannels_matched frame [] (by simp)
  intro all
  have last := all _ (List.mem_append_left _ spans.last)
  exact absurd last.2 (by decide)

end Rayman2Recomp
