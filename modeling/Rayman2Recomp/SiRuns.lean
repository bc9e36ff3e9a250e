import Rayman2Recomp.PakClean
import Rayman2Recomp.SiReplies

open BlockArray ByteMemory Disk

namespace Rayman2Recomp

/-- The call serves the frame of that shape at that channel. -/
def Serves (rdram : Rdram) (r4 r5 : BitVec 64) (c : Fin 4) (shape : Shape) : Prop :=
  (r4.setWidth 32).toInt = 0 ∧ usableAddress r5 ∧ FrameAt rdram (siAddress r5) c shape

instance (rdram : Rdram) (base : Int) (shape : Shape) : Decidable (HeaderAt rdram base shape) :=
  decidable_of_iff (∀ k : Fin shape.header.length, rdram (base + k.val) = shape.header[k]) <| by
    constructor
    · intro h k byte hk
      obtain ⟨bound, rfl⟩ := List.getElem?_eq_some_iff.mp hk
      exact h ⟨k, bound⟩
    · exact fun h k => h k.val _ (List.getElem?_eq_getElem k.isLt)

instance (rdram : Rdram) (pif : Int) (c : Fin 4) (shape : Shape) :
    Decidable (FrameAt rdram pif c shape) := inferInstanceAs (Decidable (_ ∧ _))

instance (rdram : Rdram) (r4 r5 : BitVec 64) (c : Fin 4) (shape : Shape) :
    Decidable (Serves rdram r4 r5 c shape) := inferInstanceAs (Decidable (_ ∧ _ ∧ _))

theorem serves_unique {rdram : Rdram} {r4 r5 : BitVec 64} {c d : Fin 4} {s t : Shape}
    (h : Serves rdram r4 r5 c s) (k : Serves rdram r4 r5 d t) : c = d ∧ s = t :=
  frameAt_unique h.2.2 k.2.2

theorem dma_served {rdram : Rdram} {r4 r5 : BitVec 64} {c : Fin 4} {shape : Shape}
    (h : Serves rdram r4 r5 c shape) (w : SiState) (o : LoadOutcome) :
    osSiRawStartDma w rdram r4 r5 o = ⟨(serve w rdram (siAddress r5) c o shape).1,
      (serve w rdram (siAddress r5) c o shape).2, 0, 1⟩ := by
  unfold osSiRawStartDma
  simp only [h.1, h.2.1, serviceFrame_matched h.2.2, true_and, if_true]

theorem dma_unserved {rdram : Rdram} {r4 r5 : BitVec 64} (h : ∀ c shape, ¬Serves rdram r4 r5 c shape)
    (w : SiState) (o : LoadOutcome) : osSiRawStartDma w rdram r4 r5 o = ⟨w, rdram, 0, 1⟩ := by
  unfold osSiRawStartDma
  simp only
  split
  next reads =>
    rw [serviceFrame_unmatched fun c shape frame => h c shape ⟨reads.1, reads.2, frame⟩]
  next => rfl

def frames : List (Fin 4 × Shape) :=
  (List.finRange 4).flatMap fun c => [(c, .status), (c, .read), (c, .write)]

def servedFrame (rdram : Rdram) (r4 r5 : BitVec 64) : Option (Fin 4 × Shape) :=
  frames.find? fun f => Serves rdram r4 r5 f.1 f.2

theorem mem_frames (c : Fin 4) (shape : Shape) : (c, shape) ∈ frames := by
  refine List.mem_flatMap.mpr ⟨c, List.mem_finRange c, ?_⟩
  cases shape <;> simp

theorem servedFrame_some {rdram : Rdram} {r4 r5 : BitVec 64} {c : Fin 4} {shape : Shape} :
    servedFrame rdram r4 r5 = some (c, shape) ↔ Serves rdram r4 r5 c shape := by
  constructor
  · exact fun h => by simpa using List.find?_some h
  · intro h
    cases found : servedFrame rdram r4 r5 with
    | none =>
      have unserved := List.find?_eq_none.mp found (c, shape) (mem_frames c shape)
      exact absurd h (by simpa using unserved)
    | some f =>
      have served : Serves rdram r4 r5 f.1 f.2 := by simpa using List.find?_some found
      obtain ⟨channel, same⟩ := serves_unique h served
      rw [channel, same]

theorem servedFrame_none {rdram : Rdram} {r4 r5 : BitVec 64} (h : servedFrame rdram r4 r5 = none)
    (c : Fin 4) (shape : Shape) : ¬Serves rdram r4 r5 c shape := by
  intro served
  rw [servedFrame_some.mpr served] at h
  cases h

/-- A frame for block 0x64 of channel 1, behind its filler byte, that carries
the same byte throughout. -/
def wireFrame (tx rx cmd byte : UInt8) : Rdram := fun x =>
  if x = -0x80000000 then 0
  else (([0xFF, tx, rx, cmd, 0x0C, 0x95] : List UInt8)[(x + 0x7FFFFFFF).toNat]?).getD byte

example : servedFrame (wireFrame 0x03 0x21 0x02 0) 0 0x80000000 = some (1, .read) := by decide

/-- The entry points the game and the host reach the pak through. The game may
have stored anything in RDRAM before each call. -/
inductive SiEvent
  | dma (rdram : Rdram) (r4 r5 : BitVec 64) (o : LoadOutcome)
  | flush (o : Fin 4 → WriteOutcome)

def siStep (w : SiState) : SiEvent → SiState
  | .dma rdram r4 r5 o => (osSiRawStartDma w rdram r4 r5 o).state
  | .flush o => { w with store := flush w.store o }

def SiState.opened (files : Files) (dir : String) : SiState :=
  ⟨PakStore.opened files dir, fun _ _ => 0⟩

/-- Data a served write frame carries, with the channel and block it is for. -/
def SiEvent.written : SiEvent → Option ((Fin 4 × Nat) × Block)
  | .dma rdram r4 r5 _ =>
    match servedFrame rdram r4 r5 with
    | some (c, .write) =>
      some ((c, frameBlock rdram (siAddress r5 + c.val)), frameData rdram (siAddress r5 + c.val))
    | _ => none
  | .flush _ => none

/-- The call an event makes on the store. Blocks from 0x400 on are out of the
store's range, so a call for one does nothing there. -/
def SiEvent.access : SiEvent → Option Access
  | .dma rdram r4 r5 o =>
    match servedFrame rdram r4 r5 with
    | some (c, .read) => some (.readBlock c.val (frameBlock rdram (siAddress r5 + c.val)) o)
    | some (c, .write) => some (.writeBlock c.val (frameBlock rdram (siAddress r5 + c.val))
        (frameData rdram (siAddress r5 + c.val)) o)
    | _ => none
  | .flush o => some (.flush o)

theorem blockAddress_unmapped (p : Fin 4) {block : Nat} (h : ¬block < kBlockDetect) :
    blockAddress (p.val : Int) (block : Int) = none := by
  apply dif_pos
  simp only [kBlockDetect, kBlockCount, kPakSize, kBlockSize] at h ⊢
  omega

theorem readPakBlock_store (w : SiState) (c : Fin 4) (block : Nat) (o : LoadOutcome) :
    (readPakBlock w c block o).2.store = access w.store (.readBlock c.val block o) := by
  unfold readPakBlock
  by_cases below : block < kBlockDetect
  · rw [if_neg (Nat.ne_of_lt below), if_pos below]
    rfl
  · simp only [below, if_false, access, readBlock, blockAddress_unmapped c below]
    split <;> rfl

theorem writePak_store (w : SiState) (c : Fin 4) (block : Nat) (data : Block) (o : LoadOutcome) :
    (writePak w c block data o).store = access w.store (.writeBlock c.val block data o) := by
  unfold writePak
  by_cases below : block < kBlockDetect
  · rw [if_neg (Nat.ne_of_lt below), if_pos below]
    rfl
  · simp only [below, if_false, access, writeBlock, blockAddress_unmapped c below]
    split <;> rfl

theorem siStep_store (w : SiState) (e : SiEvent) :
    (siStep w e).store = e.access.elim w.store (access w.store) := by
  cases e with
  | flush o => rfl
  | dma rdram r4 r5 o =>
    simp only [siStep, SiEvent.access]
    cases frame : servedFrame rdram r4 r5 with
    | none => rw [dma_unserved (servedFrame_none frame)]; rfl
    | some f =>
      obtain ⟨c, shape⟩ := f
      rw [dma_served (servedFrame_some.mp frame)]
      cases shape with
      | status => rfl
      | read => rw [serve_read]; exact readPakBlock_store w c _ o
      | write => rw [serve_write]; exact writePak_store w c _ _ o

def SiEvent.request (e : SiEvent) (p : Fin 4) : PortRequest :=
  e.access.elim .idle fun a => a.request p

theorem siStep_dir (w : SiState) (e : SiEvent) : (siStep w e).store.dir = w.store.dir := by
  rw [siStep_store]
  cases e.access with
  | none => rfl
  | some a => exact access_dir w.store a

theorem slot_siStep (w : SiState) (e : SiEvent) (p : Fin 4) :
    (siStep w e).store.slot p =
      (w.store.slot p).step (!w.store.dir.isEmpty) (e.request p) := by
  rw [siStep_store, SiEvent.request]
  cases e.access with
  | none => rfl
  | some a => exact slot_access w.store a p

theorem siStep_detect (w : SiState) (e : SiEvent) (c : Fin 4) :
    (siStep w e).detect c =
      match e.written with
      | some (k, data) => if k = (c, kBlockDetect) then data else w.detect c
      | none => w.detect c := by
  cases e with
  | flush o => rfl
  | dma rdram r4 r5 o =>
    simp only [siStep, SiEvent.written]
    cases frame : servedFrame rdram r4 r5 with
    | none => rw [dma_unserved (servedFrame_none frame)]
    | some f =>
      obtain ⟨d, shape⟩ := f
      rw [dma_served (servedFrame_some.mp frame)]
      cases shape with
      | status => rfl
      | read =>
        rw [serve_read]
        simp only [readPakBlock]
        split
        next => rfl
        next => split <;> rfl
      | write =>
        rw [serve_write]
        simp only [writePak, Prod.mk.injEq]
        split
        next register =>
          by_cases h : d = c
          · subst d
            simp [register]
          · simp [h, Function.update_of_ne (Ne.symm h)]
        next => split <;> simp_all

end Rayman2Recomp
