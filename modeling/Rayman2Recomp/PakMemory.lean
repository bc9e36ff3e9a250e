import Rayman2Recomp.SiRuns
import Rayman2Recomp.WriteLog

open BlockArray ByteMemory Disk Runs WriteLog

namespace Rayman2Recomp

/-- The image the port holds, or would be loaded with. -/
def PakStore.view (s : PakStore) (p : Fin 4) : Image := (ensureLoaded s p allOk).pak p

def Slot.view (t : Slot) (named : Bool) : Image := (t.load named allOk).image

def StoresWhole (o : WriteOutcome) : Prop := o.openOk ∧ kPakSize ≤ o.count

/-- Every file operation of the event succeeds. -/
def SiEvent.Succeeds : SiEvent → Prop
  | .dma _ _ _ o => ReadsWhole o.read ∧ StoresWhole o.write
  | .flush o => ∀ p, StoresWhole (o p)

/-- The channels as one memory: the blocks of each pak, its identify register,
and nothing above that. -/
def SiState.memory (w : SiState) (k : Fin 4 × Nat) : Block :=
  if h : k.2 < kBlockDetect then blockAt (w.store.view k.1) ⟨k.2, h⟩
  else if k.2 = kBlockDetect then w.detect k.1
  else fun _ => 0

theorem view_slot (s : PakStore) (p : Fin 4) : s.view p = (s.slot p).view (!s.dir.isEmpty) :=
  congrArg Slot.image (slot_ensureLoaded_same s p allOk)

theorem slot_load_image {t : Slot} {o : LoadOutcome} (read : ReadsWhole o.read) (named : Bool) :
    (t.load named o).image = t.view named := by
  have same : fileImage t.file o.read = fileImage t.file allOk.read := by
    unfold fileImage
    cases t.file with
    | none => rw [Option.bind_none, Option.bind_none]
    | some contents => simp [allOk, read.1, read.2.1, read.2.2]
  unfold Slot.view Slot.load
  rw [same]
  split
  next => rfl
  next => split <;> rfl

theorem view_loaded {t : Slot} (h : t.loaded) (named : Bool) : t.view named = t.image := by
  rw [Slot.view, load_loaded h]

theorem view_put {t : Slot} (h : t.loaded) (named : Bool) (b : Fin kBlockCount) (data : Block) :
    (t.put b data).view named = setBlock t.image b data := by
  unfold Slot.put
  split
  next => exact view_loaded (t := { t with image := setBlock t.image b data, dirty := true }) h named
  next same => rw [view_loaded h, ← not_not.mp same, setBlock_blockAt]

theorem view_save (t : Slot) (named : Bool) (o : WriteOutcome) :
    (t.save o).view named = t.view named := by
  unfold Slot.save
  split
  next h =>
    simp only [Bool.and_eq_true] at h
    rw [view_loaded h.1.1]
    exact view_loaded (t := { t with dirty := false, file := _ }) h.1.1 named
  next => rfl

def PortRequest.edit (m : Image) : PortRequest → Image
  | .put b data _ => setBlock m b data
  | _ => m

theorem view_step {t : Slot} {named : Bool} {r : PortRequest}
    (read : ∀ o, r.loads = some o → ReadsWhole o.read) :
    (t.step named r).view named = r.edit (t.view named) := by
  cases r with
  | idle => rfl
  | load o =>
    rw [Slot.step, view_loaded (load_is_loaded t named o)]
    exact slot_load_image (read o rfl) named
  | put b data o =>
    rw [Slot.step, view_put (load_is_loaded t named o), slot_load_image (read o rfl)]
    rfl
  | save o =>
    simp only [Slot.step]
    split
    next => exact view_save t _ o
    next => rfl

theorem request_reads {e : SiEvent} (ok : e.Succeeds) {p : Fin 4} {o : LoadOutcome}
    (loads : (e.request p).loads = some o) : ReadsWhole o.read := by
  cases h : e.access with
  | none =>
    rw [SiEvent.request, h] at loads
    cases loads
  | some a =>
    rw [SiEvent.request, h] at loads
    cases e with
    | flush outcomes =>
      cases h
      cases loads
    | dma rdram r4 r5 outcome =>
      simp only [SiEvent.access] at h
      rcases request_loads loads with ⟨_, _, rfl⟩ | ⟨_, _, _, rfl⟩ <;>
        split at h <;> cases h <;> exact ok.1

theorem view_siStep {w : SiState} {e : SiEvent} (ok : e.Succeeds) (p : Fin 4) :
    (siStep w e).store.view p = (e.request p).edit (w.store.view p) := by
  rw [view_slot, siStep_dir, slot_siStep, view_step fun o => request_reads ok, view_slot]

theorem edit_request_read (m : Image) (c p : Fin 4) (block : Nat) (o : LoadOutcome) :
    ((Access.readBlock c.val block o).request p).edit m = m := by
  simp only [Access.request]
  split
  next => split <;> rfl
  next => rfl

theorem edit_request_write (m : Image) (c p : Fin 4) (block : Nat) (data : Block)
    (o : LoadOutcome) (b : Fin kBlockCount) :
    blockAt (((Access.writeBlock c.val block data o).request p).edit m) b =
      if (p, b.val) = (c, block) then data else blockAt m b := by
  simp only [Access.request, Prod.mk.injEq]
  by_cases below : block < kBlockDetect
  · rw [blockAddress_fin c below]
    by_cases port : c = p
    · subst p
      by_cases same : b.val = block
      · subst block
        simp [PortRequest.edit]
      · have other : b ≠ ⟨block, below⟩ := fun h => same (congrArg Fin.val h)
        simp [PortRequest.edit, same, blockAt_setBlock_other m other]
    · simp [PortRequest.edit, port, Ne.symm port]
  · have beyond : b.val ≠ block := fun h => below (h ▸ b.isLt)
    rw [blockAddress_unmapped c below]
    simp [PortRequest.edit, beyond]

theorem edit_request (m : Image) (e : SiEvent) (p : Fin 4) (b : Fin kBlockCount) :
    blockAt ((e.request p).edit m) b =
      match e.written with
      | some (k, data) => if (p, b.val) = k then data else blockAt m b
      | none => blockAt m b := by
  cases e with
  | flush => rfl
  | dma rdram r4 r5 o =>
    simp only [SiEvent.request, SiEvent.access, SiEvent.written]
    cases servedFrame rdram r4 r5 with
    | none => rfl
    | some f =>
      obtain ⟨c, shape⟩ := f
      cases shape with
      | status => rfl
      | read => exact congrArg (blockAt · b) (edit_request_read m c p _ o)
      | write => exact edit_request_write m c p _ _ o b

/-- A served write frame stores its data under its channel and block; nothing
else changes what the channels hold. -/
theorem memory_siStep {w : SiState} {e : SiEvent} (ok : e.Succeeds) {k : Fin 4 × Nat}
    (mapped : k.2 ≤ kBlockDetect) :
    (siStep w e).memory k =
      match e.written with
      | some (stored, data) => if k = stored then data else w.memory k
      | none => w.memory k := by
  obtain ⟨p, block⟩ := k
  by_cases below : block < kBlockDetect
  · simp only [SiState.memory, below, dif_pos, view_siStep ok]
    exact edit_request (w.store.view p) e p ⟨block, below⟩
  · have register : block = kBlockDetect := le_antisymm mapped (not_lt.mp below)
    subst block
    simp only [SiState.memory, below, dif_neg, not_false_eq_true, if_true, siStep_detect]
    cases e.written with
    | none => rfl
    | some stored => exact if_congr eq_comm rfl rfl

theorem memory_unmapped {w : SiState} {k : Fin 4 × Nat} (h : kBlockDetect < k.2) :
    w.memory k = fun _ => 0 := by
  rw [SiState.memory, dif_neg (Nat.lt_asymm h), if_neg (Nat.ne_of_gt h)]

/-- A read frame is answered with what the channel holds at its block. -/
theorem readPakBlock_memory (w : SiState) (c : Fin 4) (block : Nat) {o : LoadOutcome}
    (read : ReadsWhole o.read) : (readPakBlock w c block o).1 = w.memory (c, block) := by
  unfold readPakBlock SiState.memory
  by_cases below : block < kBlockDetect
  · have image : (ensureLoaded w.store c o).pak c = w.store.view c := by
      rw [view_slot, ← slot_load_image read, ← slot_ensureLoaded_same]
      rfl
    rw [if_neg (Nat.ne_of_lt below), if_pos below, dif_pos below, readBlock, blockAddress_fin c below]
    exact congrArg (blockAt · _) image
  · simp only [below, if_false, dif_neg, not_false_eq_true]
    split <;> rfl

end Rayman2Recomp
