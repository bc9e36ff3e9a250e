import Rayman2Recomp.PakProtocol
import Rayman2Recomp.PakSessions

open BlockArray Disk Runs WriteLog

namespace Rayman2Recomp

/-- `std::chrono::seconds(1)` in the clock's ticks. -/
def kSecond : Int := 1000000000

/-- The pak as one process has it, and `next_flush` of `update_gfx`. -/
structure PakProcess where
  pak : SiState
  nextFlush : Int

/-- `next_flush` starts at the clock's epoch. -/
def PakProcess.start (files : Files) (dir : String) : PakProcess := ⟨SiState.opened files dir, 0⟩

/-- The game thread's transfers, and the calls of `update_gfx` with what the
clock reads there and what the disk answers should it flush. -/
inductive ProcessEvent
  | startDma (rdram : Rdram) (r4 r5 : BitVec 64) (o : LoadOutcome)
  | updateGfx (now : Int) (o : Fin 4 → WriteOutcome)

/-- The part of `update_gfx` that persists the pak about once a second. -/
def PakProcess.updateGfx (s : PakProcess) (now : Int) (o : Fin 4 → WriteOutcome) : PakProcess :=
  if s.nextFlush ≤ now then ⟨siStep s.pak (.flush o), now + kSecond⟩ else s

def processStep (s : PakProcess) : ProcessEvent → PakProcess
  | .startDma rdram r4 r5 o => { s with pak := siStep s.pak (.dma rdram r4 r5 o) }
  | .updateGfx now o => s.updateGfx now o

def ProcessEvent.Succeeds : ProcessEvent → Prop
  | .startDma rdram r4 r5 o => (SiEvent.dma rdram r4 r5 o).Succeeds
  | .updateGfx _ o => (SiEvent.flush o).Succeeds

def ProcessEvent.transfer : ProcessEvent → Option SiEvent
  | .startDma rdram r4 r5 o => some (.dma rdram r4 r5 o)
  | .updateGfx _ _ => none

/-- What the clock reads at a call of `update_gfx`. -/
def ProcessEvent.reading : ProcessEvent → Option Int
  | .startDma _ _ _ _ => none
  | .updateGfx now _ => some now

def transfers (es : List ProcessEvent) : List SiEvent := es.filterMap ProcessEvent.transfer

def readings (es : List ProcessEvent) : List Int := es.filterMap ProcessEvent.reading

/-- The steady clock never goes back, and never reads before its epoch. -/
def Steady (es : List ProcessEvent) : Prop :=
  (readings es).Pairwise (· ≤ ·) ∧ ∀ t ∈ readings es, 0 ≤ t

/-- A port with nothing to flush is found by the next process as it is now. -/
def SlotReloads (t : Slot) : Prop :=
  (t.dirty → t.loaded) ∧ (t.dirty = false → survivingImage t.file = t.view true)

def Reloads (s : PakStore) : Prop := s.dir.isEmpty = false ∧ ∀ p, SlotReloads (s.slot p)

theorem view_unloaded {t : Slot} (unloaded : t.loaded = false) :
    t.view true = survivingImage t.file := load_image unloaded allOk

/-- Loading a port from a disk that answers leaves the next process the pak it
would have found anyway. -/
theorem survivingImage_loaded {t : Slot} {o : LoadOutcome} (read : ReadsWhole o.read)
    (stores : StoresWhole o.write) :
    survivingImage (t.load true o).file = survivingImage t.file := by
  cases loaded : t.loaded with
  | true => rw [load_loaded loaded]
  | false =>
    have same : fileImage t.file o.read = fileImage t.file allOk.read := by
      unfold fileImage
      cases t.file with
      | none => rfl
      | some contents => simp [allOk, read.1, read.2.1, read.2.2]
    cases found : fileImage t.file o.read with
    | some m => simp [Slot.load, loaded, found]
    | none =>
      have formatted : (t.load true o).file =
          some ((imageBytes formatEmpty).take o.write.count) := by
        rw [load_formats loaded found]
        exact if_pos stores.1
      rw [formatted, survivingImage_stored, if_pos stores.2, survivingImage, ← same, found,
        Option.getD_none]

theorem slotReloads_load {t : Slot} (h : SlotReloads t) {o : LoadOutcome} (read : ReadsWhole o.read)
    (stores : StoresWhole o.write) : SlotReloads (t.load true o) := by
  refine ⟨fun _ => load_is_loaded t true o, fun clean => ?_⟩
  rw [survivingImage_loaded read stores, view_loaded (load_is_loaded t true o),
    slot_load_image read]
  cases loaded : t.loaded with
  | true =>
    rw [load_loaded loaded] at clean
    exact h.2 clean
  | false => exact (view_unloaded loaded).symm

theorem slotReloads_put {t : Slot} (h : SlotReloads t) (loaded : t.loaded) (b : Fin kBlockCount)
    (data : Block) : SlotReloads (t.put b data) := by
  unfold Slot.put
  split
  next =>
    refine ⟨fun _ => loaded, fun clean => ?_⟩
    cases clean
  next => exact h

theorem survivingImage_save {t : Slot} (h : SlotReloads t) {o : WriteOutcome}
    (stores : StoresWhole o) :
    (t.save o).dirty = false ∧ survivingImage (t.save o).file = t.view true := by
  unfold Slot.save
  cases dirty : t.dirty with
  | false =>
    rw [if_neg (by simp)]
    exact ⟨dirty, h.2 dirty⟩
  | true =>
    have loaded := h.1 dirty
    rw [if_pos (by simp [loaded, stores.1])]
    refine ⟨rfl, ?_⟩
    rw [survivingImage_stored, if_pos stores.2, view_loaded loaded]

theorem slotReloads_save {t : Slot} (h : SlotReloads t) {o : WriteOutcome} (stores : StoresWhole o) :
    SlotReloads (t.save o) := by
  obtain ⟨clean, stored⟩ := survivingImage_save h stores
  refine ⟨fun dirty => ?_, fun _ => ?_⟩
  · rw [clean] at dirty
    cases dirty
  · rw [stored, view_save]

theorem request_succeeds {e : SiEvent} (ok : e.Succeeds) {p : Fin 4} {o : LoadOutcome}
    (loads : (e.request p).loads = some o) : ReadsWhole o.read ∧ StoresWhole o.write := by
  cases h : e.access with
  | none =>
    rw [SiEvent.request, h] at loads
    cases loads
  | some a =>
    rw [SiEvent.request, h] at loads
    cases e with
    | flush outcomes =>
      cases h
      cases loads
    | dma rdram r4 r5 outcome =>
      simp only [SiEvent.access] at h
      rcases request_loads loads with ⟨_, _, rfl⟩ | ⟨_, _, _, rfl⟩ <;>
        split at h <;> cases h <;> exact ok

theorem request_transfer (rdram : Rdram) (r4 r5 : BitVec 64) (outcome : LoadOutcome) (p : Fin 4)
    (o : WriteOutcome) : (SiEvent.dma rdram r4 r5 outcome).request p ≠ .save o := by
  intro saves
  cases h : (SiEvent.dma rdram r4 r5 outcome).access with
  | none =>
    rw [SiEvent.request, h] at saves
    cases saves
  | some a =>
    rw [SiEvent.request, h] at saves
    obtain ⟨outcomes, rfl⟩ := request_save saves
    simp only [SiEvent.access] at h
    split at h <;> cases h

theorem slotReloads_step {t : Slot} (h : SlotReloads t) {r : PortRequest}
    (loads : ∀ o, r.loads = some o → ReadsWhole o.read ∧ StoresWhole o.write)
    (saves : ∀ o, r = .save o → StoresWhole o) : SlotReloads (t.step true r) := by
  cases r with
  | idle => exact h
  | load o => exact slotReloads_load h (loads o rfl).1 (loads o rfl).2
  | put b data o =>
    exact slotReloads_put (slotReloads_load h (loads o rfl).1 (loads o rfl).2)
      (load_is_loaded t true o) b data
  | save o => exact slotReloads_save h (saves o rfl)

theorem reloads_siStep {w : SiState} (h : Reloads w.store) {e : SiEvent} (ok : e.Succeeds) :
    Reloads (siStep w e).store := by
  refine ⟨by rw [siStep_dir]; exact h.1, fun p => ?_⟩
  rw [slot_siStep, h.1]
  apply slotReloads_step (h.2 p) fun o => request_succeeds ok
  intro o saves
  cases e with
  | dma rdram r4 r5 outcome => exact absurd saves (request_transfer rdram r4 r5 outcome p o)
  | flush outcomes =>
    cases saves
    exact ok p

/-- A transfer writes no image to the disk that the next process would not have
found there anyway. -/
theorem survivingImage_dma {w : SiState} (named : w.store.dir.isEmpty = false) {rdram : Rdram}
    {r4 r5 : BitVec 64} {outcome : LoadOutcome} (ok : (SiEvent.dma rdram r4 r5 outcome).Succeeds)
    (p : Fin 4) :
    survivingImage ((siStep w (.dma rdram r4 r5 outcome)).store.slot p).file =
      survivingImage (w.store.slot p).file := by
  have loads := fun o => request_succeeds (o := o) ok (p := p)
  have saves := request_transfer rdram r4 r5 outcome p
  rw [slot_siStep, named]
  generalize (SiEvent.dma rdram r4 r5 outcome).request p = r at loads saves
  cases r with
  | idle => rfl
  | load o => exact survivingImage_loaded (loads o rfl).1 (loads o rfl).2
  | put b data o =>
    rw [Slot.step, put_file]
    exact survivingImage_loaded (loads o rfl).1 (loads o rfl).2
  | save o => exact absurd rfl (saves o)

theorem survivingImage_flush {w : SiState} (h : Reloads w.store) {o : Fin 4 → WriteOutcome}
    (ok : (SiEvent.flush o).Succeeds) (p : Fin 4) :
    survivingImage ((siStep w (.flush o)).store.slot p).file = w.store.view p := by
  rw [slot_siStep, h.1, view_slot, h.1]
  exact (survivingImage_save (h.2 p) (ok p)).2

theorem view_opened (files : Files) {dir : String} (named : dir.isEmpty = false) (p : Fin 4) :
    (PakStore.opened files dir).view p = survivingImage (files (pakPath dir p)) :=
  installed_eq named rfl

/-- What the next process finds under a key of the pak. -/
theorem initialBlock_next (files : Files) {dir : String} (named : dir.isEmpty = false)
    {k : Fin 4 × Nat} (mapped : k.2 < kBlockDetect) :
    initialBlock files dir k =
      blockAt (survivingImage (files (pakPath dir k.1))) ⟨k.2, mapped⟩ := by
  rw [initialBlock, dif_pos mapped, view_opened files named]

theorem reloads_opened (files : Files) {dir : String} (named : dir.isEmpty = false) :
    Reloads (PakStore.opened files dir) := by
  refine ⟨named, fun p => ⟨fun dirty => ?_, fun _ => ?_⟩⟩
  · cases dirty
  · exact (view_unloaded rfl).symm

end Rayman2Recomp
