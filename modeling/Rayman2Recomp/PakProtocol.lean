import Rayman2Recomp.PakMemory
import Rayman2Recomp.SiService

open BlockArray ByteMemory Disk Runs WriteLog

namespace Rayman2Recomp

def writes (es : List SiEvent) : List ((Fin 4 × Nat) × Block) := es.filterMap SiEvent.written

/-- The blocks of the image a port is first loaded with: those of its file, where that has a whole
image, else those of an empty one (`initialBlock_next`). The identify register starts as zeros. -/
def initialBlock (files : Files) (dir : String) (k : Fin 4 × Nat) : Block :=
  if h : k.2 < kBlockDetect then blockAt ((PakStore.opened files dir).view k.1) ⟨k.2, h⟩
  else fun _ => 0

/-- The data a read frame is to be answered with after a run. -/
def expected (files : Files) (dir : String) (es : List SiEvent) (k : Fin 4 × Nat) : Block :=
  if k.2 ≤ kBlockDetect then contents (initialBlock files dir) (writes es) k else fun _ => 0

theorem memory_opened (files : Files) (dir : String) :
    (SiState.opened files dir).memory = initialBlock files dir := by
  funext k
  unfold SiState.memory initialBlock
  split
  next => rfl
  next => split <;> rfl

theorem writes_snoc (es : List SiEvent) (e : SiEvent) :
    writes (es ++ [e]) = writes es ++ e.written.toList := by
  rw [writes, List.filterMap_append]
  cases h : e.written <;> simp [writes, h]

theorem contents_writes_snoc {initial : Fin 4 × Nat → Block} (es : List SiEvent) (e : SiEvent)
    (k : Fin 4 × Nat) :
    contents initial (writes (es ++ [e])) k =
      match e.written with
      | some (stored, data) => if k = stored then data else contents initial (writes es) k
      | none => contents initial (writes es) k := by
  rw [writes_snoc]
  cases e.written with
  | none => simp
  | some stored =>
    rw [Option.toList_some, contents_snoc, Function.update_apply]

theorem memory_run (files : Files) (dir : String) {es : List SiEvent}
    (ok : ∀ e ∈ es, e.Succeeds) (k : Fin 4 × Nat) :
    (run siStep (SiState.opened files dir) es).memory k = expected files dir es k := by
  unfold expected
  split
  next mapped =>
    induction es using List.reverseRecOn with
    | nil => exact congrFun (memory_opened files dir) k
    | append_singleton es e ih =>
      have before := ih fun e' h => ok e' (List.mem_append_left [e] h)
      rw [run_snoc, memory_siStep (ok e (by simp)) mapped, contents_writes_snoc]
      cases e.written with
      | none => exact before
      | some stored => exact ite_congr rfl (fun _ => rfl) (fun _ => before)
  next unmapped => exact memory_unmapped (not_le.mp unmapped)

theorem writes_skip (before after : List SiEvent) {e : SiEvent} {k : Fin 4 × Nat}
    {initial : Fin 4 × Nat → Block} (other : ∀ data, e.written ≠ some (k, data)) :
    contents initial (writes (before ++ e :: after)) k =
      contents initial (writes (before ++ after)) k := by
  simp only [writes, List.filterMap_append]
  cases h : e.written with
  | none => rw [List.filterMap_cons_none h]
  | some stored =>
    rw [List.filterMap_cons_some h]
    apply contents_skip
    rintro rfl
    exact other stored.2 h

theorem dma_read {rdram : Rdram} {r4 r5 : BitVec 64} {c : Fin 4} {w : SiState} {o : LoadOutcome}
    (h : Serves rdram r4 r5 c .read) (read : ReadsWhole o.read) :
    (osSiRawStartDma w rdram r4 r5 o).rdram = readReply rdram (siAddress r5 + c.val)
      (w.memory (c, frameBlock rdram (siAddress r5 + c.val))) := by
  rw [dma_served h, serve_read, readPakBlock_memory w c _ read]

theorem frameData_readReply (rdram : Rdram) (base : Int) (data : Block) :
    frameData (readReply rdram base data) base = data := by
  funext i
  rw [frameData, memBU, loadByte, ← Int.add_assoc]
  exact readReply_data rdram base data i

theorem frame_crc {rdram : Rdram} {r4 r5 : BitVec 64} {c : Fin 4} {shape : Shape}
    (h : Serves rdram r4 r5 c shape) (pak : shape ≠ .status) (w : SiState) (o : LoadOutcome) :
    (osSiRawStartDma w rdram r4 r5 o).rdram (siAddress r5 + c.val + 0x26) =
      dataCrc (frameData (osSiRawStartDma w rdram r4 r5 o).rdram (siAddress r5 + c.val)) := by
  rw [dma_served h]
  cases shape with
  | status => exact absurd rfl pak
  | read =>
    rw [serve_read]
    exact (readReply_crc _ _ _).trans (congrArg dataCrc (frameData_readReply _ _ _)).symm
  | write =>
    rw [serve_write]
    have carried : frameData (memB rdram 0x26 (siAddress r5 + c.val)
        (dataCrc (frameData rdram (siAddress r5 + c.val)))) (siAddress r5 + c.val) =
        frameData rdram (siAddress r5 + c.val) :=
      frameData_congr fun x hx => storeByte_other (ne_of_lt hx)
    exact (storeByte_same _ _ _).trans (congrArg dataCrc carried).symm

/-- The four channels answer like one memory over any history of calls: a read
frame carries the most recent write to its channel and block. -/
theorem pak_is_one_memory (files : Files) (dir : String) {es : List SiEvent}
    (ok : ∀ e ∈ es, e.Succeeds) (rdram : Rdram) (r4 r5 : BitVec 64) {o : LoadOutcome}
    (read : ReadsWhole o.read) :
    let reply := fun es =>
      osSiRawStartDma (run siStep (SiState.opened files dir) es) rdram r4 r5 o
    let block := fun c : Fin 4 => frameBlock rdram (siAddress r5 + c.val)
    (∀ c, Serves rdram r4 r5 c .read → ∀ i : Fin kBlockSize,
      (reply es).rdram (siAddress r5 + c.val + 6 + i.val) =
        expected files dir es (c, block c) i) ∧
    (∀ c shape, Serves rdram r4 r5 c shape → shape ≠ .status →
      (reply es).rdram (siAddress r5 + c.val + 0x26) =
        dataCrc (frameData (reply es).rdram (siAddress r5 + c.val))) ∧
    (∀ c, Serves rdram r4 r5 c .read → ∀ before e after, es = before ++ e :: after →
      (∀ data, e.written ≠ some ((c, block c), data)) →
      (reply es).rdram = (reply (before ++ after)).rdram) ∧
    ((r4.setWidth 32).toInt ≠ 0 →
      (reply es).state = run siStep (SiState.opened files dir) es ∧ (reply es).rdram = rdram) := by
  dsimp only
  refine ⟨?_, ?_, ?_, ?_⟩
  · intro c served i
    rw [dma_read served read, readReply_data, memory_run files dir ok]
  · intro c shape served pak
    exact frame_crc served pak _ o
  · rintro c served before e after rfl other
    have kept : ∀ e' ∈ before ++ after, e'.Succeeds := fun e' h => ok e' (by
      rcases List.mem_append.mp h with h | h <;> simp [h])
    rw [dma_read served read, dma_read served read, memory_run files dir ok,
      memory_run files dir kept, expected, expected, writes_skip before after other]
  · intro writing
    have unserved : ∀ c shape, ¬Serves rdram r4 r5 c shape := fun c shape h => writing h.1
    rw [dma_unserved unserved]
    exact ⟨rfl, rfl⟩

theorem wire_write_read_back :
    (fun i : Fin kBlockSize => (osSiRawStartDma (run siStep (SiState.opened (fun _ => none) "cfg")
      [.dma (wireFrame 0x23 0x01 0x03 0x5A) 0 0x80000000 allOk, .flush fun _ => allOk.write])
      (wireFrame 0x03 0x21 0x02 0) 0 0x80000000 allOk).rdram
        (siAddress 0x80000000 + 1 + 6 + i.val)) = fun _ => 0x5A := by
  have stored : ∀ e ∈ [SiEvent.dma (wireFrame 0x23 0x01 0x03 0x5A) 0 0x80000000 allOk,
      .flush fun _ => allOk.write], e.Succeeds := by
    rintro e (_ | ⟨_, _ | ⟨_, ⟨⟩⟩⟩)
    · exact ⟨⟨rfl, rfl, le_rfl⟩, rfl, le_rfl⟩
    · exact fun p => ⟨rfl, le_rfl⟩
  have replies := (pak_is_one_memory (fun _ => none) "cfg" stored (wireFrame 0x03 0x21 0x02 0)
    0 0x80000000 (o := allOk) ⟨rfl, rfl, le_rfl⟩).1 1 (by decide)
  funext i
  exact (replies i).trans (by revert i; decide)

end Rayman2Recomp
