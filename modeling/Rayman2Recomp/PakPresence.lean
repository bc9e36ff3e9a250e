import Rayman2Recomp.SiRuns

open BlockArray ByteMemory Disk Runs

namespace Rayman2Recomp

/-- The ports that present no pak are not loaded, not dirty, and their files
are as they were. -/
def AbsentUntouched (files : Files) (s : PakStore) : Prop :=
  ∀ p, present p = false →
    s.loaded p = false ∧ s.dirty p = false ∧
      s.files (pakPath s.dir p) = files (pakPath s.dir p)

/-- A pak frame for a stored block is served only on a channel that presents a
pak. The handler itself never asks. -/
def SiEvent.AddressesPresent : SiEvent → Prop
  | .dma rdram r4 r5 _ => ∀ c shape, Serves rdram r4 r5 c shape → shape ≠ .status →
      frameBlock rdram (siAddress r5 + c.val) < kBlockDetect → present c
  | .flush _ => True

def SlotUntouched (file : Option Bytes) (t : Slot) : Prop :=
  t.loaded = false ∧ t.dirty = false ∧ t.file = file

theorem slotUntouched_step_iff {file : Option Bytes} {t : Slot} {named : Bool} {r : PortRequest}
    (h : SlotUntouched file t) : SlotUntouched file (t.step named r) ↔ r.loads = none := by
  cases r with
  | idle => exact iff_of_true h rfl
  | load o =>
    refine iff_of_false ?_ (Option.some_ne_none o)
    intro untouched
    exact absurd ((load_is_loaded t named o).symm.trans untouched.1) (by decide)
  | put b data o =>
    refine iff_of_false ?_ (Option.some_ne_none o)
    intro untouched
    have loaded : ((t.load named o).put b data).loaded = true := by
      unfold Slot.put
      split <;> exact load_is_loaded t named o
    exact absurd (loaded.symm.trans untouched.1) (by decide)
  | save o =>
    have unsaved : t.save o = t := by simp [Slot.save, h.1]
    refine iff_of_true ?_ rfl
    simp only [Slot.step]
    split
    next => rwa [unsaved]
    next => exact h

theorem blockCall_loads_none_iff {a : Access} {c p : Fin 4} {block : Nat} {o : LoadOutcome}
    (call : a = .readBlock c.val block o ∨ ∃ data, a = .writeBlock c.val block data o) :
    (a.request p).loads = none ↔ ¬(c = p ∧ block < kBlockDetect) := by
  by_cases below : block < kBlockDetect
  · have address := blockAddress_fin c below
    rcases call with rfl | ⟨data, rfl⟩ <;> simp only [Access.request, address] <;>
      by_cases port : c = p <;> simp [port, below, PortRequest.loads]
  · have address := blockAddress_unmapped c below
    rcases call with rfl | ⟨data, rfl⟩ <;>
      simp [Access.request, address, below, PortRequest.loads]

theorem request_loads_none_iff {rdram : Rdram} {r4 r5 : BitVec 64} {o : LoadOutcome} {p : Fin 4} :
    ((SiEvent.dma rdram r4 r5 o).request p).loads = none ↔
      ∀ shape, Serves rdram r4 r5 p shape → shape ≠ .status →
        ¬frameBlock rdram (siAddress r5 + p.val) < kBlockDetect := by
  simp only [SiEvent.request, SiEvent.access]
  cases frame : servedFrame rdram r4 r5 with
  | none => exact iff_of_true rfl fun shape h => absurd h (servedFrame_none frame p shape)
  | some f =>
    obtain ⟨c, shape⟩ := f
    have served := servedFrame_some.mp frame
    have only : ∀ s, Serves rdram r4 r5 p s → c = p ∧ shape = s := fun s => serves_unique served
    cases shape with
    | status =>
      exact iff_of_true rfl fun s h pak => absurd (only s h).2.symm pak
    | read =>
      refine (blockCall_loads_none_iff (Or.inl rfl)).trans ⟨?_, ?_⟩
      · intro apart s h _ below
        obtain ⟨rfl, _⟩ := only s h
        exact apart ⟨rfl, below⟩
      · rintro apart ⟨rfl, below⟩
        exact apart .read served (by decide) below
    | write =>
      refine (blockCall_loads_none_iff (Or.inr ⟨_, rfl⟩)).trans ⟨?_, ?_⟩
      · intro apart s h _ below
        obtain ⟨rfl, _⟩ := only s h
        exact apart ⟨rfl, below⟩
      · rintro apart ⟨rfl, below⟩
        exact apart .write served (by decide) below

theorem addressesPresent_iff (e : SiEvent) :
    e.AddressesPresent ↔ ∀ p, present p = false → (e.request p).loads = none := by
  cases e with
  | flush o => exact iff_of_true trivial fun _ _ => rfl
  | dma rdram r4 r5 o =>
    constructor
    · intro h p absent
      refine request_loads_none_iff.mpr fun shape served pak below => ?_
      rw [h p shape served pak below] at absent
      cases absent
    · intro h c shape served pak below
      by_contra absent
      exact request_loads_none_iff.mp (h c (by simpa using absent)) shape served pak below

theorem absentUntouched_step_iff {files : Files} {w : SiState}
    (h : AbsentUntouched files w.store) (e : SiEvent) :
    AbsentUntouched files (siStep w e).store ↔ e.AddressesPresent := by
  rw [addressesPresent_iff]
  refine forall_congr' fun p => imp_congr_right fun absent => ?_
  have before : SlotUntouched (files (pakPath w.store.dir p)) (w.store.slot p) := h p absent
  rw [← slotUntouched_step_iff before, ← slot_siStep]
  simp only [SlotUntouched, PakStore.slot, siStep_dir]

theorem absentUntouched_opened (files : Files) (dir : String) :
    AbsentUntouched files (SiState.opened files dir).store := fun _ _ => ⟨rfl, rfl, rfl⟩

/-- A run leaves the ports without a pak alone exactly when no frame for a
stored block comes in on one of their channels. -/
theorem absent_untouched_iff (files : Files) (dir : String) (es : List SiEvent) :
    (∀ before, before <+: es →
      AbsentUntouched files (run siStep (SiState.opened files dir) before).store) ↔
      ∀ e ∈ es, e.AddressesPresent := by
  have within := everyPrefix_iff_everyStep (P := fun w : SiState => AbsentUntouched files w.store)
    (fun w e h => absentUntouched_step_iff h e) (absentUntouched_opened files dir) es
  exact within.trans everyStep_iff_forall_mem

theorem empty_slot_frame_loads :
    ¬AbsentUntouched (fun _ => none) (run siStep (SiState.opened (fun _ => none) "cfg")
      [.dma (wireFrame 0x03 0x21 0x02 0) 0 0x80000000 allOk]).store := by
  rw [run_cons, run_nil, absentUntouched_step_iff (absentUntouched_opened _ _)]
  intro present_only
  exact absurd (present_only 1 .read (by decide) (by decide) (by decide)) (by decide)

end Rayman2Recomp
