import Rayman2Recomp.PakStore

open BlockArray Disk Runs

namespace Rayman2Recomp

structure Slot where
  image : Image
  loaded : Bool
  dirty : Bool
  file : Option Bytes

def PakStore.slot (s : PakStore) (p : Fin 4) : Slot :=
  ⟨s.pak p, s.loaded p, s.dirty p, s.files (pakPath s.dir p)⟩

inductive PortRequest
  | idle
  | load (o : LoadOutcome)
  | put (b : Fin kBlockCount) (data : Block) (o : LoadOutcome)
  | save (o : WriteOutcome)

def Access.request (a : Access) (p : Fin 4) : PortRequest :=
  match a with
  | .readBlock port block o =>
    match blockAddress port block with
    | some (q, _) => if q = p then .load o else .idle
    | none => .idle
  | .writeBlock port block data o =>
    match blockAddress port block with
    | some (q, b) => if q = p then .put b data o else .idle
    | none => .idle
  | .flush o => .save (o p)

def fileImage (file : Option Bytes) (o : ReadOutcome) : Option Image :=
  file.bind fun contents =>
    if o.existsOk ∧ o.openOk ∧ kPakSize ≤ contents.length ∧ kPakSize ≤ o.count
    then some (imageOf contents) else none

/-- `named` says that a storage directory is set. -/
def Slot.load (t : Slot) (named : Bool) (o : LoadOutcome) : Slot :=
  if t.loaded then t
  else
    match if named then fileImage t.file o.read else none with
    | some m => ⟨m, true, false, t.file⟩
    | none =>
      ⟨formatEmpty, true, false,
        if named && o.write.openOk then some ((imageBytes formatEmpty).take o.write.count)
        else t.file⟩

def Slot.put (t : Slot) (b : Fin kBlockCount) (data : Block) : Slot :=
  if blockAt t.image b ≠ data then { t with image := setBlock t.image b data, dirty := true } else t

def Slot.save (t : Slot) (o : WriteOutcome) : Slot :=
  if t.loaded && t.dirty && o.openOk then
    { t with dirty := false, file := some ((imageBytes t.image).take o.count) }
  else t

def Slot.step (named : Bool) (t : Slot) : PortRequest → Slot
  | .idle => t
  | .load o => t.load named o
  | .put b data o => (t.load named o).put b data
  | .save o => if named then t.save o else t

theorem readPak_eq (files : Files) (path : FsPath) (o : ReadOutcome) :
    readPak files path o = fileImage (files path) o := by
  obtain ⟨existsOk, openOk, count⟩ := o
  cases hf : files path with
  | none => simp [readPak, fileImage, Files.exists, hf]
  | some contents =>
    have length : (readBytes contents kPakSize ⟨existsOk, openOk, count⟩).length =
        min (min kPakSize count) contents.length := List.length_take
    cases existsOk <;> cases openOk <;>
      simp [readPak, fileImage, Files.exists, Files.openRead, hf]
    by_cases whole : kPakSize ≤ contents.length ∧ kPakSize ≤ count
    · rw [if_pos (by omega), if_pos whole]
      exact congrArg some (imageOf_take (le_min le_rfl whole.2))
    · rw [if_neg (by omega), if_neg whole]

theorem slot_install_same (s : PakStore) (p : Fin 4) (m : Image) (files : Files) :
    (s.install p m files).slot p = ⟨m, true, false, files (pakPath s.dir p)⟩ := by
  simp [PakStore.install, PakStore.slot]

theorem slot_install_other (s : PakStore) {p q : Fin 4} (h : q ≠ p) (m : Image) {files : Files}
    (same : files (pakPath s.dir q) = s.files (pakPath s.dir q)) :
    (s.install p m files).slot q = s.slot q := by
  simp [PakStore.install, PakStore.slot, h, same]

theorem rewritePak_getD (s : PakStore) (p : Fin 4) (m : Image) (o : WriteOutcome) :
    (s.files.rewriteFile (pakPath s.dir p) (imageBytes m) o).getD s.files =
      if o.openOk then
        Function.update s.files (pakPath s.dir p) (some ((imageBytes m).take o.count))
      else s.files := by
  rw [rewriteFile_eq]
  split <;> rfl

theorem pakPath_ne {d : String} {p q : Fin 4} (h : q ≠ p) : pakPath d q ≠ pakPath d p :=
  fun same => h (pakPath_injective same).2

theorem slot_ensureLoaded_same (s : PakStore) (p : Fin 4) (o : LoadOutcome) :
    (ensureLoaded s p o).slot p = (s.slot p).load (!s.dir.isEmpty) o := by
  unfold ensureLoaded Slot.load
  by_cases loaded : s.loaded p
  · simp [PakStore.slot, loaded]
  · have unloaded : (s.slot p).loaded = false := by simpa [PakStore.slot] using loaded
    simp only [loaded, unloaded, Bool.false_eq_true, if_false]
    cases empty : s.dir.isEmpty
    · simp only [readPak_eq, Bool.false_eq_true, if_false, Bool.not_false, if_true, Bool.true_and]
      change _ = match fileImage (s.files (pakPath s.dir p)) o.read with | some m => _ | none => _
      cases fileImage (s.files (pakPath s.dir p)) o.read with
      | some m => exact slot_install_same s p m s.files
      | none =>
        rw [slot_install_same, rewritePak_getD]
        cases o.write.openOk <;> simp [PakStore.slot]
    · simp only [if_true, Bool.not_true, Bool.false_eq_true, if_false, Bool.false_and]
      exact slot_install_same s p formatEmpty s.files

theorem slot_ensureLoaded_other (s : PakStore) {p q : Fin 4} (h : q ≠ p) (o : LoadOutcome) :
    (ensureLoaded s p o).slot q = s.slot q := by
  unfold ensureLoaded
  split
  next => rfl
  next =>
    split
    next m _ => exact slot_install_other s h m rfl
    next =>
      apply slot_install_other s h
      rw [rewritePak_getD]
      split
      next => rfl
      next =>
        split
        next => exact Function.update_of_ne (pakPath_ne h) _ _
        next => rfl

theorem ensureLoaded_dir (s : PakStore) (p : Fin 4) (o : LoadOutcome) :
    (ensureLoaded s p o).dir = s.dir := by
  unfold ensureLoaded
  split
  next => rfl
  next => split <;> rfl

theorem slot_flushPort_same (s : PakStore) (p : Fin 4) (o : WriteOutcome) :
    (flushPort s p o).slot p = (s.slot p).save o := by
  unfold flushPort Slot.save
  rw [rewriteFile_eq]
  cases hl : s.loaded p <;> cases hd : s.dirty p <;> cases ho : o.openOk <;>
    simp [PakStore.slot, hl, hd]

theorem slot_flushPort_other (s : PakStore) {p q : Fin 4} (h : q ≠ p) (o : WriteOutcome) :
    (flushPort s p o).slot q = s.slot q := by
  unfold flushPort
  rw [rewriteFile_eq]
  cases s.loaded p <;> cases s.dirty p <;> cases o.openOk <;>
    simp [PakStore.slot, h, pakPath_ne h]

theorem save_file (t : Slot) (o : WriteOutcome) : (t.save o).file =
    if t.loaded && t.dirty && o.openOk then some ((imageBytes t.image).take o.count)
    else t.file := by
  unfold Slot.save
  split <;> rfl

theorem flushPort_dir (s : PakStore) (p : Fin 4) (o : WriteOutcome) :
    (flushPort s p o).dir = s.dir := by
  unfold flushPort
  split
  next => rfl
  next => split <;> rfl

theorem flush_dir (s : PakStore) (o : Fin 4 → WriteOutcome) : (flush s o).dir = s.dir := by
  have ports_dir : ∀ (ports : List (Fin 4)) (s : PakStore),
      (ports.foldl (fun s port => flushPort s port (o port)) s).dir = s.dir := by
    intro ports
    induction ports with
    | nil => exact fun _ => rfl
    | cons p ports ih => exact fun s => (ih _).trans (flushPort_dir s p (o p))
  unfold flush
  split
  next => rfl
  next => exact ports_dir _ s

theorem slot_flushPorts (s : PakStore) (o : Fin 4 → WriteOutcome) {ports : List (Fin 4)}
    (once : ports.Nodup) (q : Fin 4) :
    (ports.foldl (fun s port => flushPort s port (o port)) s).slot q =
      if q ∈ ports then (s.slot q).save (o q) else s.slot q := by
  induction ports generalizing s with
  | nil => simp
  | cons p ports ih =>
    obtain ⟨fresh, once⟩ := List.nodup_cons.mp once
    rw [List.foldl_cons, ih _ once]
    by_cases h : q = p
    · subst q
      rw [if_neg fresh, slot_flushPort_same, if_pos List.mem_cons_self]
    · rw [slot_flushPort_other s h]
      simp [h]

theorem slot_flush (s : PakStore) (o : Fin 4 → WriteOutcome) (q : Fin 4) :
    (flush s o).slot q = if s.dir.isEmpty then s.slot q else (s.slot q).save (o q) := by
  unfold flush
  split
  next => rfl
  next => rw [slot_flushPorts s o (List.nodup_finRange 4) q, if_pos (List.mem_finRange q)]

theorem slot_writeBlock_same {s : PakStore} {port block : Int} {p : Fin 4} {b : Fin kBlockCount}
    (h : blockAddress port block = some (p, b)) (data : Block) (o : LoadOutcome) :
    (writeBlock s port block data o).2.slot p =
      ((s.slot p).load (!s.dir.isEmpty) o).put b data := by
  rw [← slot_ensureLoaded_same]
  simp only [writeBlock, h, Slot.put]
  by_cases changed : blockAt ((ensureLoaded s p o).slot p).image b ≠ data
  · rw [if_pos changed, if_pos (show blockAt ((ensureLoaded s p o).pak p) b ≠ data from changed)]
    simp [PakStore.slot]
  · rw [if_neg changed, if_neg (show ¬blockAt ((ensureLoaded s p o).pak p) b ≠ data from changed)]

theorem slot_writeBlock_other {s : PakStore} {port block : Int} {p q : Fin 4} {b : Fin kBlockCount}
    (h : blockAddress port block = some (p, b)) (hq : q ≠ p) (data : Block) (o : LoadOutcome) :
    (writeBlock s port block data o).2.slot q = s.slot q := by
  rw [← slot_ensureLoaded_other s hq o]
  simp only [writeBlock, h]
  split
  next => simp [PakStore.slot, hq]
  next => rfl

theorem access_dir (s : PakStore) (a : Access) : (access s a).dir = s.dir := by
  cases a with
  | readBlock port block o =>
    simp only [access, readBlock]
    split
    next => rfl
    next p _ _ => exact ensureLoaded_dir s p o
  | writeBlock port block data o =>
    simp only [access, writeBlock]
    split
    next => rfl
    next p _ _ => split <;> exact ensureLoaded_dir s p o
  | flush o => exact flush_dir s o

theorem install_files (s : PakStore) (p : Fin 4) (m : Image) (files : Files) :
    (s.install p m files).files = files := rfl

theorem ensureLoaded_files (s : PakStore) (p : Fin 4) (o : LoadOutcome) {path : FsPath}
    (h : path ≠ pakPath s.dir p) : (ensureLoaded s p o).files path = s.files path := by
  unfold ensureLoaded
  split
  next => rfl
  next =>
    split
    next => rfl
    next =>
      rw [install_files, rewritePak_getD]
      split
      next => rfl
      next =>
        split
        next => exact Function.update_of_ne h _ _
        next => rfl

theorem flushPort_files (s : PakStore) (p : Fin 4) (o : WriteOutcome) {path : FsPath}
    (h : path ≠ pakPath s.dir p) : (flushPort s p o).files path = s.files path := by
  unfold flushPort
  rw [rewriteFile_eq]
  cases s.loaded p <;> cases s.dirty p <;> cases o.openOk <;> simp [h]

theorem flush_files (s : PakStore) (o : Fin 4 → WriteOutcome) {path : FsPath}
    (h : ∀ p, path ≠ pakPath s.dir p) : (flush s o).files path = s.files path := by
  have ports_files : ∀ (ports : List (Fin 4)) (s : PakStore), (∀ p, path ≠ pakPath s.dir p) →
      (ports.foldl (fun s port => flushPort s port (o port)) s).files path = s.files path := by
    intro ports
    induction ports with
    | nil => exact fun _ _ => rfl
    | cons p ports ih =>
      intro s h
      rw [List.foldl_cons, ih _ (by simpa only [flushPort_dir] using h), flushPort_files s p _ (h p)]
  unfold flush
  split
  next => rfl
  next => exact ports_files _ s h

/-- Only the four pak files of the storage directory are ever written. -/
theorem access_files (s : PakStore) (a : Access) {path : FsPath} (h : ∀ p, path ≠ pakPath s.dir p) :
    (access s a).files path = s.files path := by
  cases a with
  | readBlock port block o =>
    simp only [access, readBlock]
    split
    next => rfl
    next p _ _ => exact ensureLoaded_files s p o (h p)
  | writeBlock port block data o =>
    simp only [access, writeBlock]
    split
    next => rfl
    next p _ _ => split <;> exact ensureLoaded_files s p o (h p)
  | flush o => exact flush_files s o h

/-- The store is four slots side by side: a call steps each of them on what it
asks of that port. -/
theorem slot_access (s : PakStore) (a : Access) (q : Fin 4) :
    (access s a).slot q = (s.slot q).step (!s.dir.isEmpty) (a.request q) := by
  cases a with
  | readBlock port block o =>
    simp only [access, readBlock, Access.request]
    cases blockAddress port block with
    | none => rfl
    | some address =>
      by_cases hq : address.1 = q
      · subst q
        simpa only [if_true, Slot.step] using slot_ensureLoaded_same s address.1 o
      · simpa only [if_neg hq, Slot.step] using slot_ensureLoaded_other s (Ne.symm hq) o
  | writeBlock port block data o =>
    simp only [access, Access.request]
    cases h : blockAddress port block with
    | none => simp only [writeBlock, h, Slot.step]
    | some address =>
      by_cases hq : address.1 = q
      · subst q
        simpa only [if_true, Slot.step] using slot_writeBlock_same h data o
      · simpa only [if_neg hq, Slot.step] using slot_writeBlock_other h (Ne.symm hq) data o
  | flush o =>
    simp only [access, Access.request, Slot.step, slot_flush]
    cases s.dir.isEmpty <;> rfl

end Rayman2Recomp
