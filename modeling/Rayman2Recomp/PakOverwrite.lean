import Rayman2Recomp.PakSlots

open BlockArray Disk Runs

namespace Rayman2Recomp

inductive Call
  | setStorageDirectory (dir : String)
  | access (a : Access)

def call (s : PakStore) : Call → PakStore
  | .setStorageDirectory dir => setStorageDirectory s dir
  | .access a => access s a

/-- Data some call of the run passed to `write_block` for that port and block. -/
def Written (calls : List Call) (p : Fin 4) (b : Fin kBlockCount) (data : Block) : Prop :=
  ∃ port block o, Call.access (.writeBlock port block data o) ∈ calls ∧
    blockAddress port block = some (p, b)

def fileBlock (contents : Bytes) (b : Fin kBlockCount) : Block := blockAt (imageOf contents) b

def FullLength (file : Option Bytes) : Prop :=
  ∃ contents, file = some contents ∧ kPakSize ≤ contents.length

/-- When the call replaces a file of at least 32 KiB, every whole block of the
new contents is that file's own or was passed to `write_block`. -/
def OverwriteKeepsBlocks (calls : List Call) (s : PakStore) (c : Call) : Prop :=
  ∀ path old new, s.files path = some old → kPakSize ≤ old.length →
    (call s c).files path = some new → new ≠ old →
    ∃ p, path = pakPath s.dir p ∧ ∀ b : Fin kBlockCount, (b.val + 1) * kBlockSize ≤ new.length →
      fileBlock new b = fileBlock old b ∨ Written (calls ++ [c]) p b (fileBlock new b)

def PortRequest.loads : PortRequest → Option LoadOutcome
  | .load o | .put _ _ o => some o
  | .idle | .save _ => none

def ReadsWhole (o : ReadOutcome) : Prop := o.existsOk ∧ o.openOk ∧ kPakSize ≤ o.count

/-- A first touch reads a full-length file in full, and the directory is not
moved onto a full-length file under a port that is already loaded. -/
def KeepsFullFiles (s : PakStore) : Call → Prop
  | .setStorageDirectory dir =>
    dir = s.dir ∨ ∀ p, s.loaded p → ¬FullLength (s.files (pakPath dir p))
  | .access a =>
    ∀ p o, (a.request p).loads = some o → s.loaded p = false → s.dir.isEmpty = false →
      FullLength (s.files (pakPath s.dir p)) → ReadsWhole o.read

/-- The blocks of a loaded image come from its file or from `write_block`. -/
def SlotKept (written : Fin kBlockCount → Block → Prop) (t : Slot) : Prop :=
  t.loaded → ∀ contents, t.file = some contents → kPakSize ≤ contents.length →
    ∀ b, blockAt t.image b = fileBlock contents b ∨ written b (blockAt t.image b)

theorem fileImage_whole {contents : Bytes} {o : ReadOutcome} (read : ReadsWhole o)
    (length : kPakSize ≤ contents.length) :
    fileImage (some contents) o = some (imageOf contents) :=
  if_pos ⟨read.1, read.2.1, length, read.2.2⟩

theorem load_whole {t : Slot} {o : LoadOutcome} {contents : Bytes} (unloaded : t.loaded = false)
    (file : t.file = some contents) (length : kPakSize ≤ contents.length)
    (read : ReadsWhole o.read) :
    t.load true o = ⟨imageOf contents, true, false, t.file⟩ := by
  simp [Slot.load, unloaded, file, fileImage_whole read length]

theorem load_loaded {t : Slot} (h : t.loaded = true) (named : Bool) (o : LoadOutcome) :
    t.load named o = t := by
  simp [Slot.load, h]

theorem load_is_loaded (t : Slot) (named : Bool) (o : LoadOutcome) :
    (t.load named o).loaded = true := by
  unfold Slot.load
  split
  next h => exact h
  next => split <;> rfl

theorem load_formats {t : Slot} {o : LoadOutcome} (unloaded : t.loaded = false)
    (unread : fileImage t.file o.read = none) :
    t.load true o = ⟨formatEmpty, true, false,
      if o.write.openOk then some ((imageBytes formatEmpty).take o.write.count) else t.file⟩ := by
  simp [Slot.load, unloaded, unread]

theorem fileImage_none {file : Option Bytes} {o : ReadOutcome}
    (fails : ∀ contents, file = some contents →
      ¬(o.existsOk ∧ o.openOk ∧ kPakSize ≤ contents.length ∧ kPakSize ≤ o.count)) :
    fileImage file o = none := by
  cases file with
  | none => rfl
  | some contents => exact if_neg (fails contents rfl)

theorem fileImage_short {file : Option Bytes} (short : ¬FullLength file) (o : ReadOutcome) :
    fileImage file o = none :=
  fileImage_none fun contents same read => short ⟨contents, same, read.2.2.1⟩

theorem imageOf_stored {m : Image} {n : Nat} (length : kPakSize ≤ ((imageBytes m).take n).length) :
    imageOf ((imageBytes m).take n) = m := by
  rw [List.length_take, imageBytes_length] at length
  rw [imageOf_take (by omega), imageOf_imageBytes]

theorem fileImage_unread {o : ReadOutcome} (unread : ¬ReadsWhole o) (file : Option Bytes) :
    fileImage file o = none :=
  fileImage_none fun _ _ read => unread ⟨read.1, read.2.1, read.2.2.2⟩

theorem slotKept_load {written : Fin kBlockCount → Block → Prop} {t : Slot} {o : LoadOutcome}
    (read : t.loaded = false → FullLength t.file → ReadsWhole o.read)
    (kept : SlotKept written t) : SlotKept written (t.load true o) := by
  cases loaded : t.loaded with
  | true => rwa [load_loaded loaded]
  | false =>
    intro _ contents file length b
    left
    by_cases full : FullLength t.file
    · obtain ⟨old, hold, hlength⟩ := full
      rw [load_whole loaded hold hlength (read loaded ⟨old, hold, hlength⟩)] at file ⊢
      cases Option.some.inj (hold.symm.trans file)
      rfl
    · rw [load_formats loaded (fileImage_short full o.read)] at file ⊢
      simp only at file
      split at file
      next =>
        cases Option.some.inj file
        rw [fileBlock, imageOf_stored length]
      next => exact absurd ⟨contents, file, length⟩ full

theorem slotKept_put {written : Fin kBlockCount → Block → Prop} {t : Slot} {b : Fin kBlockCount}
    {data : Block} (passed : written b data) (kept : SlotKept written t) :
    SlotKept written (t.put b data) := by
  unfold Slot.put
  split
  next =>
    intro loaded contents file length c
    by_cases hc : c = b
    · subst c
      right
      simpa only [blockAt_setBlock_same] using passed
    · simpa only [blockAt_setBlock_other _ hc] using kept loaded contents file length c
  next => exact kept

theorem slotKept_save {written : Fin kBlockCount → Block → Prop} {t : Slot} (o : WriteOutcome)
    (kept : SlotKept written t) : SlotKept written (t.save o) := by
  unfold Slot.save
  split
  next =>
    intro _ contents file length b
    cases Option.some.inj file
    left
    rw [fileBlock, imageOf_stored length]
  next => exact kept

def KeepsFullFile (t : Slot) (r : PortRequest) : Prop :=
  ∀ o, r.loads = some o → t.loaded = false → FullLength t.file → ReadsWhole o.read

theorem slotKept_step {written : Fin kBlockCount → Block → Prop} {t : Slot} {r : PortRequest}
    (keeps : KeepsFullFile t r) (passed : ∀ b data o, r = .put b data o → written b data)
    (kept : SlotKept written t) : SlotKept written (t.step true r) := by
  cases r with
  | idle => exact kept
  | load o => exact slotKept_load (keeps o rfl) kept
  | put b data o => exact slotKept_put (passed b data o rfl) (slotKept_load (keeps o rfl) kept)
  | save o => exact slotKept_save o kept

theorem fileBlock_stored {m : Image} {n : Nat} {b : Fin kBlockCount}
    (length : (b.val + 1) * kBlockSize ≤ ((imageBytes m).take n).length) :
    fileBlock ((imageBytes m).take n) b = blockAt m b := by
  funext j
  have cell : (finProdFinEquiv (b, j)).val = j + 32 * b := rfl
  have bound : (finProdFinEquiv (b, j)).val < n := by
    have hj : j.val < 32 := j.isLt
    simp only [List.length_take, imageBytes_length, kBlockSize] at length
    omega
  have whole := congrFun (imageOf_imageBytes m) (finProdFinEquiv (b, j))
  simp only [imageOf, List.getD_eq_getElem?_getD] at whole
  simp only [fileBlock, blockAt, imageOf, List.getD_eq_getElem?_getD,
    List.getElem?_take_of_lt bound, whole]

theorem put_file (t : Slot) (b : Fin kBlockCount) (data : Block) : (t.put b data).file = t.file := by
  unfold Slot.put
  split <;> rfl

/-- A full-length file is left alone by a load and rewritten by a flush from an
image that was kept. -/
theorem slot_overwrite {written : Fin kBlockCount → Block → Prop} {t : Slot} {r : PortRequest}
    {old new : Bytes} (keeps : KeepsFullFile t r) (kept : SlotKept written t)
    (before : t.file = some old) (length : kPakSize ≤ old.length)
    (after : (t.step true r).file = some new) (changed : new ≠ old) :
    ∀ b : Fin kBlockCount, (b.val + 1) * kBlockSize ≤ new.length →
      fileBlock new b = fileBlock old b ∨ written b (fileBlock new b) := by
  have untouched : t.file = some new → False := fun same =>
    changed (Option.some.inj (same.symm.trans before))
  have load_file : ∀ o, r.loads = some o → (t.load true o).file = t.file := by
    intro o loads
    cases loaded : t.loaded with
    | true => rw [load_loaded loaded]
    | false => rw [load_whole loaded before length (keeps o loads loaded ⟨old, before, length⟩)]
  cases r with
  | idle => exact (untouched after).elim
  | load o => exact (untouched ((load_file o rfl).symm.trans after)).elim
  | put b data o =>
    rw [Slot.step, put_file, load_file o rfl] at after
    exact (untouched after).elim
  | save o =>
    simp only [Slot.step, if_true, Slot.save] at after
    split at after
    next saving =>
      simp only [Bool.and_eq_true] at saving
      cases Option.some.inj after
      intro b hb
      rw [fileBlock_stored hb]
      exact kept saving.1.1 old before length b
    next => exact (untouched after).elim

theorem step_unnamed_file (t : Slot) (r : PortRequest) : (t.step false r).file = t.file := by
  have load_file : ∀ o, (t.load false o).file = t.file := by
    intro o
    unfold Slot.load
    split <;> rfl
  cases r with
  | idle | save => rfl
  | load o => exact load_file o
  | put b data o => rw [Slot.step, put_file, load_file o]

theorem request_put {a : Access} {p : Fin 4} {b : Fin kBlockCount} {data : Block}
    {o : LoadOutcome} (h : a.request p = .put b data o) :
    ∃ port block, a = .writeBlock port block data o ∧ blockAddress port block = some (p, b) := by
  cases a with
  | readBlock port block o =>
    simp only [Access.request] at h
    split at h
    next => split at h <;> cases h
    next => cases h
  | writeBlock port block data o =>
    simp only [Access.request] at h
    split at h
    next q c address =>
      split at h
      next hq => cases h; subst q; exact ⟨port, block, rfl, address⟩
      next => cases h
    next => cases h
  | flush => cases h

theorem written_mono {calls : List Call} {p : Fin 4} {b : Fin kBlockCount} {data : Block}
    (h : Written calls p b data) (c : Call) : Written (calls ++ [c]) p b data := by
  obtain ⟨port, block, o, mem, address⟩ := h
  exact ⟨port, block, o, List.mem_append_left _ mem, address⟩

theorem slotKept_mono {written more : Fin kBlockCount → Block → Prop} {t : Slot}
    (mono : ∀ b data, written b data → more b data) (kept : SlotKept written t) :
    SlotKept more t :=
  fun loaded contents file length b => (kept loaded contents file length b).imp_right (mono b _)

def Kept (calls : List Call) (s : PakStore) : Prop :=
  s.dir.isEmpty = false → ∀ p, SlotKept (Written calls p) (s.slot p)

theorem kept_call {calls : List Call} {s : PakStore} {c : Call} (keeps : KeepsFullFiles s c)
    (kept : Kept calls s) : Kept (calls ++ [c]) (call s c) := by
  intro named p
  cases c with
  | setStorageDirectory dir =>
    rcases keeps with rfl | moved
    · exact slotKept_mono (fun b data h => written_mono h _) (kept named p)
    · intro loaded contents file length
      exact absurd ⟨contents, file, length⟩ (moved p loaded)
  | access a =>
    simp only [call, access_dir] at named ⊢
    rw [slot_access, named, Bool.not_false]
    apply slotKept_step (fun o loads unloaded => keeps p o loads unloaded named)
    · intro b data o request
      obtain ⟨port, block, rfl, address⟩ := request_put request
      exact ⟨port, block, o, by simp, address⟩
    · exact slotKept_mono (fun b data h => written_mono h _) (kept named p)

theorem overwriteKeepsBlocks_of_kept {calls : List Call} {s : PakStore} {c : Call}
    (keeps : KeepsFullFiles s c) (kept : Kept calls s) : OverwriteKeepsBlocks calls s c := by
  intro path old new before length after changed
  cases c with
  | setStorageDirectory dir => exact absurd (Option.some.inj (after.symm.trans before)) changed
  | access a =>
    by_cases hp : ∃ p, path = pakPath s.dir p
    · obtain ⟨p, rfl⟩ := hp
      have stepped : ((s.slot p).step (!s.dir.isEmpty) (a.request p)).file = some new := by
        rw [← slot_access, PakStore.slot, access_dir]
        exact after
      cases named : s.dir.isEmpty with
      | true =>
        rw [named, Bool.not_true, step_unnamed_file] at stepped
        exact absurd (Option.some.inj (stepped.symm.trans before)) changed
      | false =>
        rw [named, Bool.not_false] at stepped
        refine ⟨p, rfl, fun b hb => ?_⟩
        exact (slot_overwrite (fun o loads unloaded => keeps p o loads unloaded named)
          (kept named p) before length stepped changed b hb).imp_right (written_mono · _)
    · have same := access_files s a (not_exists.mp hp)
      exact absurd (Option.some.inj (after.symm.trans (same.trans before))) changed

theorem overwrite_keeps_blocks (files : Files) (calls : List Call) (c : Call)
    (h : EveryStep call KeepsFullFiles (PakStore.start files) (calls ++ [c])) :
    OverwriteKeepsBlocks calls (run call (PakStore.start files) calls) c := by
  obtain ⟨before, here⟩ := everyStep_snoc.mp h
  have start : Kept [] (PakStore.start files) := by
    intro named
    cases named
  exact overwriteKeepsBlocks_of_kept here
    (run_history_induction start (fun calls c kept keeps => kept_call keeps kept) before)

/-- A saved pak whose file cannot be opened for reading the moment it is first
touched, though it can be opened for writing. -/
def savedPak : Files := fun path =>
  if path = pakPath "cfg" 0 then some (List.replicate kPakSize 0xFF) else none

def openDenied : LoadOutcome := ⟨⟨true, false, 0⟩, ⟨true, kPakSize⟩⟩

theorem denied_load_formats :
    (call (run call (PakStore.start savedPak) [.setStorageDirectory "cfg"])
      (.access (.readBlock 0 0 openDenied))).files (pakPath "cfg" 0) =
      some (imageBytes formatEmpty) := by
  have stepped := slot_access (setStorageDirectory (PakStore.start savedPak) "cfg")
    (.readBlock 0 0 openDenied) 0
  have request : Access.request (.readBlock 0 0 openDenied) 0 = .load openDenied := rfl
  have named : (setStorageDirectory (PakStore.start savedPak) "cfg").dir.isEmpty = false := rfl
  have before : (setStorageDirectory (PakStore.start savedPak) "cfg").slot 0 =
      ⟨fun _ => 0, false, false, some (List.replicate kPakSize 0xFF)⟩ := rfl
  have denied : ¬ReadsWhole openDenied.read := fun read => absurd read.2.1 (by decide)
  rw [request, named, before, Bool.not_false, Slot.step,
    load_formats rfl (fileImage_unread denied _)] at stepped
  have file := congrArg Slot.file stepped
  simp only [PakStore.slot, access_dir] at file
  refine file.trans ?_
  rw [if_pos (by rfl), List.take_of_length_le (by rw [imageBytes_length]; exact le_rfl)]

theorem denied_load_overwrites_saved_pak :
    ¬OverwriteKeepsBlocks [.setStorageDirectory "cfg"]
      (run call (PakStore.start savedPak) [.setStorageDirectory "cfg"])
      (.access (.readBlock 0 0 openDenied)) := by
  intro keeps
  have full : kPakSize ≤ (List.replicate kPakSize (0xFF : UInt8)).length := by
    rw [List.length_replicate]
  obtain ⟨b, hb⟩ : ∃ b : Fin kBlockCount, 24 ≤ b.val := ⟨⟨100, by decide⟩, by decide⟩
  have zeros : fileBlock (imageBytes formatEmpty) b = fun _ => 0 := by
    rw [fileBlock, imageOf_imageBytes, formatEmpty_free hb]
  have ones : fileBlock (List.replicate kPakSize 0xFF) b = fun _ => 0xFF := by
    funext j
    have bound : (finProdFinEquiv (b, j)).val < kPakSize := (finProdFinEquiv (b, j)).isLt
    simp only [fileBlock, blockAt, imageOf, List.getD_eq_getElem?_getD, List.getElem?_replicate,
      if_pos bound, Option.getD_some]
  have differ : imageBytes formatEmpty ≠ List.replicate kPakSize 0xFF := by
    intro same
    rw [same, ones] at zeros
    exact absurd (congrFun zeros 0) (by decide)
  obtain ⟨p, path, blocks⟩ := keeps (pakPath "cfg" 0) _ _ rfl full denied_load_formats differ
  have whole : (b.val + 1) * kBlockSize ≤ (imageBytes formatEmpty).length := by
    have bound : b.val < 1024 := b.isLt
    rw [imageBytes_length]
    simp only [kBlockSize, kPakSize]
    omega
  rcases blocks b whole with own | ⟨port, block, o, mem, _⟩
  · rw [zeros, ones] at own
    exact absurd (congrFun own 0) (by decide)
  · simp at mem

theorem request_loads {a : Access} {p : Fin 4} {o : LoadOutcome}
    (h : (a.request p).loads = some o) :
    (∃ port block, a = .readBlock port block o) ∨
      ∃ port block data, a = .writeBlock port block data o := by
  cases a with
  | readBlock port block o =>
    left
    simp only [Access.request] at h
    split at h
    next => split at h <;> cases h; exact ⟨port, block, rfl⟩
    next => cases h
  | writeBlock port block data o =>
    right
    simp only [Access.request] at h
    split at h
    next => split at h <;> cases h; exact ⟨port, block, data, rfl⟩
    next => cases h
  | flush => cases h

theorem request_save {a : Access} {p : Fin 4} {o : WriteOutcome} (h : a.request p = .save o) :
    ∃ outcomes, a = .flush outcomes := by
  cases a with
  | readBlock | writeBlock =>
    simp only [Access.request] at h
    split at h
    next => split at h <;> cases h
    next => cases h
  | flush outcomes => exact ⟨outcomes, rfl⟩

def allOk : LoadOutcome := ⟨⟨true, true, kPakSize⟩, ⟨true, kPakSize⟩⟩

theorem overwrite_keeps_blocks_saved :
    OverwriteKeepsBlocks
      [.setStorageDirectory "cfg", .access (.writeBlock 0 100 (fun _ => 0) allOk)]
      (run call (PakStore.start savedPak)
        [.setStorageDirectory "cfg", .access (.writeBlock 0 100 (fun _ => 0) allOk)])
      (.access (.flush fun _ => allOk.write)) := by
  apply overwrite_keeps_blocks
  refine ⟨Or.inr fun p loaded => absurd loaded Bool.false_ne_true, ?_, ?_, trivial⟩
  · intro p o loads _ _ _
    rcases request_loads loads with ⟨_, _, h⟩ | ⟨_, _, _, h⟩
    · cases h
    · cases h
      exact ⟨rfl, rfl, le_rfl⟩
  · intro p o loads
    cases loads

end Rayman2Recomp
