import Rayman2Recomp.PakClean
import Mathlib.Tactic.FinCases

open BlockArray Disk Runs

namespace Rayman2Recomp

/-- The file-system steps of one `flush` whose files all open and store. -/
def flushSteps (s : PakStore) : List FileStep :=
  if s.dir.isEmpty then []
  else (List.finRange 4).flatMap fun p =>
    if s.loaded p && s.dirty p then rewrite (pakPath s.dir p) (imageBytes (s.pak p)) else []

/-- How many of the first `n` steps of a flush are made on the file of `p`. -/
def stepsMade (s : PakStore) (n : Nat) (p : Fin 4) : Nat :=
  (((flushSteps s).take n).filter (·.path = pakPath s.dir p)).length

/-- What the flushes of all sessions so far have done to one port: the image of
the last that completed, and the image of one killed on its file since then with
the number of steps it made there. -/
structure FlushRecord where
  completed : Option Image
  interrupted : Option (Image × Nat)

structure Sessions where
  store : PakStore
  record : Fin 4 → FlushRecord

inductive SessionEvent
  | readBlock (port block : Int)
  | writeBlock (port block : Int) (data : Block)
  | flush
  | killedFlush (steps : Nat)
  | restart

def newSession (s : PakStore) (files : Files) : PakStore := PakStore.opened files s.dir

def Sessions.start (files : Files) (dir : String) : Sessions where
  store := PakStore.opened files dir
  record := fun p => ⟨fileImage (files (pakPath dir p)) allOk.read, none⟩

def sessionStep (g : Sessions) : SessionEvent → Sessions
  | .readBlock port block => { g with store := access g.store (.readBlock port block allOk) }
  | .writeBlock port block data =>
    { g with store := access g.store (.writeBlock port block data allOk) }
  | .flush =>
    { store := access g.store (.flush fun _ => allOk.write)
      record := fun p =>
        if g.store.loaded p && g.store.dirty p then ⟨some (g.store.pak p), none⟩ else g.record p }
  | .killedFlush n =>
    { store := newSession g.store (run Files.apply g.store.files ((flushSteps g.store).take n))
      record := fun p =>
        if stepsMade g.store n p = 0 then g.record p
        else ⟨(g.record p).completed, some (g.store.pak p, stepsMade g.store n p)⟩ }
  | .restart => { g with store := newSession g.store g.store.files }

def installed (s : PakStore) (p : Fin 4) : Image := (ensureLoaded s p allOk).pak p

/-- What is left of a port's pak. The truncation and 32767 of the bytes leave a
file too short to be one. -/
def FlushRecord.survivor (r : FlushRecord) : Image :=
  match r.interrupted with
  | some (m, k) => if k ≤ kPakSize then formatEmpty else m
  | none => r.completed.getD formatEmpty

theorem flushSteps_filter {s : PakStore} (named : s.dir.isEmpty = false) (q : Fin 4) :
    (flushSteps s).filter (·.path = pakPath s.dir q) =
      if s.loaded q && s.dirty q then rewrite (pakPath s.dir q) (imageBytes (s.pak q)) else [] := by
  have segment : ∀ p, (if s.loaded p && s.dirty p then
      rewrite (pakPath s.dir p) (imageBytes (s.pak p)) else []).filter (·.path = pakPath s.dir q) =
      if p = q then (if s.loaded p && s.dirty p then
        rewrite (pakPath s.dir p) (imageBytes (s.pak p)) else []) else [] := by
    intro p
    split
    next =>
      by_cases h : p = q
      · rw [if_pos h, List.filter_eq_self]
        intro step mem
        simp [rewrite_path mem, h]
      · rw [if_neg h, List.filter_eq_nil_iff]
        intro step mem
        simpa [rewrite_path mem] using pakPath_ne h
    next => split <;> rfl
  rw [flushSteps, named, if_neg Bool.false_ne_true, List.filter_flatMap]
  simp only [segment]
  have ports : List.finRange 4 = [0, 1, 2, 3] := rfl
  rw [ports]
  fin_cases q <;> simp

theorem run_flushSteps_take {s : PakStore} (named : s.dir.isEmpty = false) (n : Nat) (q : Fin 4) :
    run Files.apply s.files ((flushSteps s).take n) (pakPath s.dir q) =
      run Files.apply s.files ((if s.loaded q && s.dirty q then
        rewrite (pakPath s.dir q) (imageBytes (s.pak q)) else []).take (stepsMade s n q))
        (pakPath s.dir q) := by
  rw [run_apply_filter]
  have made := ((List.take_prefix n (flushSteps s)).filter (·.path = pakPath s.dir q))
  rw [flushSteps_filter named, List.prefix_iff_eq_take] at made
  exact congrArg (fun steps => run Files.apply s.files steps (pakPath s.dir q)) made

theorem run_flushSteps {s : PakStore} (named : s.dir.isEmpty = false) (q : Fin 4) :
    run Files.apply s.files (flushSteps s) (pakPath s.dir q) =
      if s.loaded q && s.dirty q then some (imageBytes (s.pak q))
      else s.files (pakPath s.dir q) := by
  rw [run_apply_filter, flushSteps_filter named]
  split
  next => rw [run_rewrite, Function.update_self]
  next => rfl

theorem flush_files_eq {s : PakStore} (named : s.dir.isEmpty = false) (q : Fin 4) :
    (flush s fun _ => allOk.write).files (pakPath s.dir q) =
      run Files.apply s.files (flushSteps s) (pakPath s.dir q) := by
  have flushed := congrArg Slot.file (slot_flush s (fun _ => allOk.write) q)
  rw [if_neg (by simp [named]), save_file] at flushed
  simp only [PakStore.slot, flush_dir] at flushed
  have whole : (imageBytes (s.pak q)).take allOk.write.count = imageBytes (s.pak q) :=
    List.take_of_length_le (imageBytes_length _).le
  rw [run_flushSteps named, flushed, whole]
  simp only [show allOk.write.openOk = true from rfl, Bool.and_true]

def survivingImage (file : Option Bytes) : Image := (fileImage file allOk.read).getD formatEmpty

theorem survivingImage_stored {m : Image} {n : Nat} :
    survivingImage (some ((imageBytes m).take n)) = if kPakSize ≤ n then m else formatEmpty := by
  unfold survivingImage
  split
  next h =>
    have length : kPakSize ≤ ((imageBytes m).take n).length := by
      rw [List.length_take, imageBytes_length]
      omega
    rw [fileImage_whole ⟨rfl, rfl, le_rfl⟩ length, Option.getD_some, imageOf_stored length]
  next h =>
    rw [fileImage_short, Option.getD_none]
    rintro ⟨contents, same, length⟩
    cases Option.some.inj same
    rw [List.length_take] at length
    omega

theorem survivingImage_bytes (m : Image) : survivingImage (some (imageBytes m)) = m := by
  have whole := survivingImage_stored (m := m) (n := kPakSize)
  rwa [List.take_of_length_le (imageBytes_length m).le, if_pos le_rfl] at whole

theorem installed_eq {s : PakStore} {p : Fin 4} (named : s.dir.isEmpty = false)
    (unloaded : s.loaded p = false) :
    installed s p = survivingImage (s.files (pakPath s.dir p)) := by
  have loaded := congrArg Slot.image (slot_ensureLoaded_same s p allOk)
  rw [named, Bool.not_false, load_image (t := s.slot p) unloaded] at loaded
  exact loaded

/-- Loading leaves what the file gives as it was: a file that is no pak gives a
formatted one before and after. -/
theorem survivingImage_load (t : Slot) :
    survivingImage (t.load true allOk).file = survivingImage t.file := by
  cases loaded : t.loaded with
  | true => rw [load_loaded loaded]
  | false =>
    cases read : fileImage t.file allOk.read with
    | some m => simp [Slot.load, loaded, read]
    | none =>
      have stored : (t.load true allOk).file = some ((imageBytes formatEmpty).take kPakSize) := by
        rw [load_formats loaded read]
        change (if allOk.write.openOk then _ else t.file) = _
        exact if_pos rfl
      rw [stored, survivingImage_stored, if_pos le_rfl, survivingImage, read, Option.getD_none]

def Survives (g : Sessions) : Prop :=
  g.store.dir.isEmpty = false ∧
    ∀ p, survivingImage (g.store.files (pakPath g.store.dir p)) = (g.record p).survivor

theorem survives_access {g : Sessions} (h : Survives g) {a : Access}
    (loads : ∀ p o, (a.request p).loads = some o → o = allOk)
    (saves : ∀ p o, a.request p ≠ .save o) : Survives { g with store := access g.store a } := by
  refine ⟨by simpa only [access_dir] using h.1, fun p => ?_⟩
  have stepped := congrArg Slot.file (slot_access g.store a p)
  simp only [PakStore.slot, access_dir, h.1, Bool.not_false] at stepped
  simp only [access_dir]
  rw [stepped, ← h.2 p]
  cases request : a.request p with
  | idle => rfl
  | load o =>
    cases loads p o (by rw [request]; rfl)
    exact survivingImage_load (g.store.slot p)
  | put b data o =>
    cases loads p o (by rw [request]; rfl)
    rw [Slot.step, put_file]
    exact survivingImage_load (g.store.slot p)
  | save o => exact absurd request (saves p o)

theorem survives_killed {g : Sessions} (h : Survives g) (n : Nat) :
    Survives (sessionStep g (.killedFlush n)) := by
  refine ⟨h.1, fun p => ?_⟩
  change survivingImage (run Files.apply g.store.files ((flushSteps g.store).take n)
    (pakPath g.store.dir p)) = FlushRecord.survivor (if stepsMade g.store n p = 0 then _ else _)
  rw [run_flushSteps_take h.1]
  cases made : stepsMade g.store n p with
  | zero => simpa using h.2 p
  | succ k =>
    rw [if_neg (Nat.succ_ne_zero k)]
    cases writes : g.store.loaded p && g.store.dirty p with
    | false =>
      have none_made : stepsMade g.store n p = 0 := by
        have sub := ((List.take_prefix n (flushSteps g.store)).filter
          (·.path = pakPath g.store.dir p))
        rw [flushSteps_filter h.1, writes, if_neg Bool.false_ne_true, List.prefix_nil] at sub
        rw [stepsMade, sub]
        rfl
      omega
    | true =>
      rw [if_pos rfl, run_rewrite_take, Function.update_self, survivingImage_stored]
      simp only [FlushRecord.survivor]
      by_cases torn : k + 1 ≤ kPakSize
      · rw [if_pos torn, if_neg (by omega)]
      · rw [if_neg torn, if_pos (by omega)]

/-- A read or write of a block whose file operations all succeed. -/
theorem survives_block {g : Sessions} (h : Survives g) {a : Access}
    (block : (∃ port b, a = .readBlock port b allOk) ∨
      ∃ port b data, a = .writeBlock port b data allOk) :
    Survives { g with store := access g.store a } := by
  apply survives_access h
  · intro p o loads
    rcases block with ⟨port, b, rfl⟩ | ⟨port, b, data, rfl⟩
    · rcases request_loads loads with ⟨_, _, same⟩ | ⟨_, _, _, same⟩ <;> cases same
      rfl
    · rcases request_loads loads with ⟨_, _, same⟩ | ⟨_, _, _, same⟩ <;> cases same
      rfl
  · intro p o saves
    obtain ⟨outcomes, same⟩ := request_save saves
    rcases block with ⟨port, b, rfl⟩ | ⟨port, b, data, rfl⟩ <;> cases same

theorem survives_step {g : Sessions} (h : Survives g) (e : SessionEvent) :
    Survives (sessionStep g e) := by
  cases e with
  | readBlock port block => exact survives_block h (Or.inl ⟨port, block, rfl⟩)
  | writeBlock port block data => exact survives_block h (Or.inr ⟨port, block, data, rfl⟩)
  | flush =>
    refine ⟨by simpa only [sessionStep, access_dir] using h.1, fun p => ?_⟩
    simp only [sessionStep, access_dir]
    rw [access, flush_files_eq h.1, run_flushSteps h.1]
    split
    next => exact survivingImage_bytes _
    next => exact h.2 p
  | killedFlush n => exact survives_killed h n
  | restart => exact h

theorem survives_run (files : Files) {dir : String} (named : dir.isEmpty = false)
    (es : List SessionEvent) : Survives (run sessionStep (Sessions.start files dir) es) := by
  apply run_invariant (motive := Survives) ⟨named, fun p => rfl⟩
  exact fun g e h => survives_step h e

theorem installed_after_kills (files : Files) {dir : String} (named : dir.isEmpty = false)
    (es : List SessionEvent) (p : Fin 4)
    (unloaded : (run sessionStep (Sessions.start files dir) es).store.loaded p = false) :
    installed (run sessionStep (Sessions.start files dir) es).store p =
      ((run sessionStep (Sessions.start files dir) es).record p).survivor := by
  have survives := survives_run files named es
  rw [installed_eq survives.1 unloaded, survives.2 p]

/-- Once a flush has stored a pak, the next process gets that image or the one
a killed flush was writing. -/
def FlushAtomic (g : Sessions) : Prop :=
  ∀ p m, g.store.loaded p = false → (g.record p).completed = some m →
    installed g.store p = m ∨ ∃ k, (g.record p).interrupted = some (installed g.store p, k)

theorem put_changed {t : Slot} {b : Fin kBlockCount} {data : Block}
    (h : blockAt t.image b ≠ data) :
    t.put b data = { t with image := setBlock t.image b data, dirty := true } := if_pos h

theorem session_write_slot {g : Sessions} (named : g.store.dir.isEmpty = false) {port block : Int}
    {p : Fin 4} {b : Fin kBlockCount} (address : blockAddress port block = some (p, b))
    (data : Block) :
    (sessionStep g (.writeBlock port block data)).store.slot p =
      ((g.store.slot p).load true allOk).put b data := by
  have stepped := slot_writeBlock_same (s := g.store) address data allOk
  rwa [named, Bool.not_false] at stepped

theorem session_flush_slot {g : Sessions} (named : g.store.dir.isEmpty = false) (p : Fin 4) :
    (sessionStep g .flush).store.slot p = (g.store.slot p).save allOk.write := by
  have stepped := slot_flush g.store (fun _ => allOk.write) p
  rwa [named, if_neg Bool.false_ne_true] at stepped

theorem stepsMade_truncate {s : PakStore} (named : s.dir.isEmpty = false)
    (loaded : s.loaded 0) (dirty : s.dirty 0) : stepsMade s 1 0 = 1 := by
  have ports : List.finRange 4 = [0, 1, 2, 3] := rfl
  have written : (s.loaded 0 && s.dirty 0) = true := by rw [loaded, dirty, Bool.and_self]
  obtain ⟨rest, split⟩ : ∃ rest, flushSteps s = .truncate (pakPath s.dir 0) :: rest := by
    unfold flushSteps
    rw [named, if_neg Bool.false_ne_true, ports, List.flatMap_cons, if_pos written, rewrite,
      List.cons_append]
    exact ⟨_, rfl⟩
  simp [stepsMade, split, FileStep.path]

/-- Killing a flush between the truncation and the first byte loses both the
stored pak and the one being stored. -/
theorem truncation_not_atomic {g : Sessions} (survives : Survives g) {m : Image}
    (loaded : g.store.loaded 0) (dirty : g.store.dirty 0)
    (completed : (g.record 0).completed = some m) (stored : m ≠ formatEmpty)
    (storing : g.store.pak 0 ≠ formatEmpty) : ¬FlushAtomic (sessionStep g (.killedFlush 1)) := by
  intro atomic
  have made := stepsMade_truncate survives.1 loaded dirty
  have record : (sessionStep g (.killedFlush 1)).record 0 = ⟨some m, some (g.store.pak 0, 1)⟩ := by
    change (if stepsMade g.store 1 0 = 0 then g.record 0 else
      ⟨(g.record 0).completed, some (g.store.pak 0, stepsMade g.store 1 0)⟩) = _
    rw [made, if_neg Nat.one_ne_zero, completed]
  have lost : installed (sessionStep g (.killedFlush 1)).store 0 = formatEmpty := by
    have after := survives_killed survives 1
    rw [installed_eq after.1 rfl, after.2 0, record]
    change (if 1 ≤ kPakSize then formatEmpty else g.store.pak 0) = formatEmpty
    exact if_pos (by decide)
  rcases atomic 0 m rfl (by rw [record]) with same | ⟨k, same⟩
  · exact stored (same.symm.trans lost)
  · rw [record, lost] at same
    exact storing (Prod.mk.inj (Option.some.inj same)).1

/-- A write that is flushed, a second one, and a flush killed at its truncation. -/
def killedSession : List SessionEvent :=
  [.writeBlock 0 100 (fun _ => 1), .flush, .writeBlock 0 100 (fun _ => 2), .killedFlush 1]

theorem killed_flush_loses_pak :
    ¬FlushAtomic (run sessionStep (Sessions.start (fun _ => none) "cfg") killedSession) := by
  obtain ⟨b, address⟩ : ∃ b : Fin kBlockCount, blockAddress 0 100 = some (0, b) ∧ 24 ≤ b.val :=
    ⟨⟨100, by decide⟩, rfl, by decide⟩
  have free : blockAt formatEmpty b = fun _ => 0 := formatEmpty_free address.2
  have differ : ∀ x y : UInt8, x ≠ y → (fun _ : Fin kBlockSize => x) ≠ fun _ => y :=
    fun x y h same => h (congrFun same 0)
  have formatted : ∀ {m : Image} {x : UInt8}, 0 ≠ x → blockAt m b = (fun _ => x) →
      m ≠ formatEmpty := by
    rintro m x h block rfl
    exact differ 0 x h (free.symm.trans block)
  have survives := survives_run (fun _ => none) (show String.isEmpty "cfg" = false from rfl)
  have s0 := survives []
  have s1 := survives [.writeBlock 0 100 fun _ => 1]
  have s2 := survives [.writeBlock 0 100 (fun _ => 1), .flush]
  have s3 := survives [.writeBlock 0 100 (fun _ => 1), .flush, .writeBlock 0 100 fun _ => 2]
  simp only [run_cons, run_nil, killedSession] at s0 s1 s2 s3 ⊢
  have first := session_write_slot s0.1 address.1 fun _ => 1
  rw [load_formats rfl rfl, put_changed (by rw [free]; exact differ 0 1 (by decide))] at first
  generalize sessionStep (Sessions.start (fun _ => none) "cfg")
    (.writeBlock 0 100 fun _ => 1) = g1 at first s1 s2 s3 ⊢
  have image1 : g1.store.pak 0 = setBlock formatEmpty b fun _ => 1 := congrArg Slot.image first
  have second := session_flush_slot s1.1 0
  have stored : ((sessionStep g1 .flush).record 0).completed = some (g1.store.pak 0) := by
    have dirty : (g1.store.loaded 0 && g1.store.dirty 0) = true := by
      rw [show g1.store.loaded 0 = true from congrArg Slot.loaded first,
        show g1.store.dirty 0 = true from congrArg Slot.dirty first]
      rfl
    exact congrArg FlushRecord.completed (if_pos dirty)
  rw [first] at second
  generalize sessionStep g1 .flush = g2 at second stored s2 s3 ⊢
  have third := session_write_slot s2.1 address.1 fun _ => 2
  have image2 : (g2.store.slot 0).image = setBlock formatEmpty b fun _ => 1 :=
    congrArg Slot.image second
  rw [load_loaded (congrArg Slot.loaded second),
    put_changed (by rw [image2, blockAt_setBlock_same]; exact differ 1 2 (by decide))] at third
  have kept : (sessionStep g2 (.writeBlock 0 100 fun _ => 2)).record = g2.record := rfl
  rw [← kept] at stored
  generalize sessionStep g2 (.writeBlock 0 100 fun _ => 2) = g3 at third stored s3 ⊢
  have image3 : g3.store.pak 0 = setBlock (g2.store.slot 0).image b fun _ => 2 :=
    congrArg Slot.image third
  refine truncation_not_atomic s3 ?_ (congrArg Slot.dirty third) stored ?_ ?_
  · exact (congrArg Slot.loaded third).trans (congrArg Slot.loaded second)
  · exact formatted (x := 1) (by decide) (by rw [image1, blockAt_setBlock_same])
  · exact formatted (x := 2) (by decide) (by rw [image3, blockAt_setBlock_same])

theorem installed_after_truncation :
    installed (run sessionStep (Sessions.start (fun _ => none) "cfg") killedSession).store 0 =
      ((run sessionStep (Sessions.start (fun _ => none) "cfg") killedSession).record 0).survivor :=
  installed_after_kills (fun _ => none) (show String.isEmpty "cfg" = false from rfl) killedSession 0 rfl

end Rayman2Recomp
