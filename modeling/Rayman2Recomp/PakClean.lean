import Rayman2Recomp.PakOverwrite

open BlockArray Disk Runs

namespace Rayman2Recomp

/-- The store with its directory set once, before the first access. -/
def PakStore.opened (files : Files) (dir : String) : PakStore :=
  setStorageDirectory (PakStore.start files) dir

/-- A port with nothing left to flush is on disk as it is in memory. -/
def Clean (s : PakStore) : Prop :=
  ∀ p, s.loaded p → s.dirty p = false → s.files (pakPath s.dir p) = some (imageBytes (s.pak p))

def SlotClean (t : Slot) : Prop :=
  t.loaded → t.dirty = false → t.file = some (imageBytes t.image)

def firstImage (t : Slot) (o : LoadOutcome) : Image := (fileImage t.file o.read).getD formatEmpty

/-- A first touch finds a file of exactly 32 KiB and reads it, or stores all of
the formatted pak. -/
def LoadSettles (t : Slot) (o : LoadOutcome) : Prop :=
  (ReadsWhole o.read ∧ ∃ contents, t.file = some contents ∧ contents.length = kPakSize) ∨
  (fileImage t.file o.read = none ∧
    if o.write.openOk then kPakSize ≤ o.write.count else t.file = some (imageBytes formatEmpty))

/-- What a request has to meet for the port to stay clean. A write that changes
the block leaves the port dirty whatever its load did. -/
def SlotSettles (t : Slot) : PortRequest → Prop
  | .idle => True
  | .load o => t.loaded ∨ LoadSettles t o
  | .put b data o => t.loaded ∨ LoadSettles t o ∨ blockAt (firstImage t o) b ≠ data
  | .save o => t.loaded → t.dirty → o.openOk → kPakSize ≤ o.count

def Settles (s : PakStore) (a : Access) : Prop := ∀ p, SlotSettles (s.slot p) (a.request p)

theorem clean_iff_slots (s : PakStore) : Clean s ↔ ∀ p, SlotClean (s.slot p) := Iff.rfl

theorem stored_whole_iff {m : Image} {n : Nat} :
    some ((imageBytes m).take n) = some (imageBytes m) ↔ kPakSize ≤ n := by
  rw [Option.some.injEq, List.take_eq_self_iff, imageBytes_length]

theorem slotClean_load_iff {t : Slot} {o : LoadOutcome} (unloaded : t.loaded = false) :
    SlotClean (t.load true o) ↔ LoadSettles t o := by
  unfold LoadSettles
  cases read : fileImage t.file o.read with
  | none =>
    rw [load_formats unloaded read]
    have unread : ¬(ReadsWhole o.read ∧ ∃ contents, t.file = some contents ∧
        contents.length = kPakSize) := by
      rintro ⟨whole, contents, file, length⟩
      rw [file, fileImage_whole whole length.ge] at read
      cases read
    simp only [unread, false_or, true_and, SlotClean, forall_const]
    split
    next => exact stored_whole_iff
    next => rfl
  | some m =>
    have loaded : t.load true o = ⟨m, true, false, t.file⟩ := by simp [Slot.load, unloaded, read]
    obtain ⟨contents, file, whole⟩ := Option.bind_eq_some_iff.mp read
    split at whole
    next h =>
      cases Option.some.inj whole
      simp only [loaded, SlotClean, forall_const, file, Option.some.injEq, reduceCtorEq, false_and,
        or_false]
      constructor
      · intro same
        exact ⟨⟨h.1, h.2.1, h.2.2.2⟩, contents, rfl, by rw [same, imageBytes_length]⟩
      · rintro ⟨_, _, rfl, length⟩
        exact (imageBytes_imageOf length).symm
    next => cases whole

theorem load_image {t : Slot} (unloaded : t.loaded = false) (o : LoadOutcome) :
    (t.load true o).image = firstImage t o := by
  unfold Slot.load firstImage
  simp only [unloaded, Bool.false_eq_true, if_false, if_true]
  cases fileImage t.file o.read <;> rfl

theorem slotClean_put_iff {t : Slot} {b : Fin kBlockCount} {data : Block} :
    SlotClean (t.put b data) ↔ SlotClean t ∨ blockAt t.image b ≠ data := by
  unfold Slot.put
  split
  next h => simp [SlotClean, h]
  next h => simp [h]

theorem slotClean_save_iff {t : Slot} {o : WriteOutcome} (clean : SlotClean t) :
    SlotClean (t.save o) ↔ (t.loaded → t.dirty → o.openOk → kPakSize ≤ o.count) := by
  unfold Slot.save
  split
  next h =>
    simp only [Bool.and_eq_true] at h
    simp only [SlotClean, h, forall_const]
    exact stored_whole_iff
  next h =>
    refine iff_of_true clean ?_
    intro loaded dirty opened
    simp [loaded, dirty, opened] at h

theorem slotClean_step_iff {t : Slot} {r : PortRequest} (clean : SlotClean t) :
    SlotClean (t.step true r) ↔ SlotSettles t r := by
  cases r with
  | idle => exact iff_of_true clean trivial
  | load o =>
    cases loaded : t.loaded with
    | true => simp [Slot.step, SlotSettles, load_loaded loaded, loaded, clean]
    | false => simp [Slot.step, SlotSettles, slotClean_load_iff loaded, loaded]
  | put b data o =>
    rw [Slot.step, slotClean_put_iff]
    cases loaded : t.loaded with
    | true => simp [SlotSettles, load_loaded loaded, loaded, clean]
    | false => simp [SlotSettles, slotClean_load_iff loaded, load_image loaded, loaded]
  | save o => exact slotClean_save_iff clean

theorem clean_access_iff {s : PakStore} (named : s.dir.isEmpty = false) (clean : Clean s)
    (a : Access) : Clean (access s a) ↔ Settles s a := by
  rw [clean_iff_slots, Settles]
  apply forall_congr'
  intro p
  rw [slot_access, named]
  exact slotClean_step_iff (clean p)

/-- Every state of the run is clean exactly when every call of it settles. -/
theorem clean_iff_settles (files : Files) {dir : String} (named : dir.isEmpty = false)
    (as : List Access) :
    (∀ before, before <+: as → Clean (run access (PakStore.opened files dir) before)) ↔
      EveryStep access Settles (PakStore.opened files dir) as := by
  have keeps_dir : ∀ before, (run access (PakStore.opened files dir) before).dir = dir := fun before =>
    run_invariant (motive := fun s => s.dir = dir) rfl (fun s a h => (access_dir s a).trans h) before
  have start : Clean (PakStore.opened files dir) := by
    intro p loaded
    cases loaded
  have exact_step : ∀ s a, s.dir = dir ∧ Clean s →
      ((access s a).dir = dir ∧ Clean (access s a) ↔ Settles s a) := by
    rintro s a ⟨hd, clean⟩
    rw [access_dir, clean_access_iff (by rw [hd]; exact named) clean a]
    exact and_iff_right hd
  rw [← everyPrefix_iff_everyStep exact_step ⟨rfl, start⟩ as]
  simp only [keeps_dir, true_and]

def firstWrite : Access := .writeBlock 0 100 (fun _ => 1) allOk

theorem firstWrite_request (p : Fin 4) :
    firstWrite.request p = if 0 = p then .put ⟨100, by decide⟩ (fun _ => 1) allOk else .idle := rfl

theorem firstWrite_settles : Settles (PakStore.opened (fun _ => none) "cfg") firstWrite := by
  intro p
  rw [firstWrite_request]
  split
  next => exact Or.inr (Or.inl (Or.inr ⟨rfl, le_refl kPakSize⟩))
  next => trivial

theorem firstWrite_dirty :
    ((access (PakStore.opened (fun _ => none) "cfg") firstWrite).slot 0).loaded = true ∧
    ((access (PakStore.opened (fun _ => none) "cfg") firstWrite).slot 0).dirty = true := by
  have named : (PakStore.opened (fun _ => none) "cfg").dir.isEmpty = false := rfl
  have unloaded : ((PakStore.opened (fun _ => none) "cfg").slot 0).loaded = false := rfl
  have block : blockAt (((PakStore.opened (fun _ => none) "cfg").slot 0).load true allOk).image
      ⟨100, by decide⟩ ≠ fun _ => 1 := by
    rw [load_image unloaded, show firstImage _ _ = formatEmpty from rfl, formatEmpty_free (by decide)]
    exact fun same => absurd (congrFun same 0) (by decide)
  rw [slot_access, firstWrite_request, if_pos rfl, named, Bool.not_false, Slot.step, Slot.put,
    if_pos block]
  exact ⟨load_is_loaded _ _ _, rfl⟩

theorem short_flush_forgets_write :
    ¬Clean (run access (PakStore.opened (fun _ => none) "cfg")
      [firstWrite, .flush fun _ => ⟨true, 100⟩]) := by
  intro clean
  rw [run_cons, run_cons, run_nil] at clean
  have named : (PakStore.opened (fun _ => none) "cfg").dir.isEmpty = false := rfl
  have start : Clean (PakStore.opened (fun _ => none) "cfg") := fun p loaded => by cases loaded
  have written := (clean_access_iff named start firstWrite).mpr firstWrite_settles
  have flushed := (clean_access_iff (by rw [access_dir]; exact named) written _).mp clean 0
  exact absurd (flushed firstWrite_dirty.1 firstWrite_dirty.2 rfl) (by decide)

theorem clean_while_everything_succeeds :
    Clean (run access (PakStore.opened (fun _ => none) "cfg")
      [firstWrite, .flush fun _ => allOk.write]) := by
  have settle : EveryStep access Settles (PakStore.opened (fun _ => none) "cfg")
      [firstWrite, .flush fun _ => allOk.write] :=
    ⟨firstWrite_settles, fun _ _ _ _ => le_refl kPakSize, trivial⟩
  have named : String.isEmpty "cfg" = false := rfl
  exact (clean_iff_settles (fun _ => none) named _).mpr settle _ List.prefix_rfl

end Rayman2Recomp
