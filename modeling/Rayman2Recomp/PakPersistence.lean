import Rayman2Recomp.PakTimer

open BlockArray Disk Runs WriteLog

namespace Rayman2Recomp

theorem transfers_append (es fs : List ProcessEvent) :
    transfers (es ++ fs) = transfers es ++ transfers fs := List.filterMap_append

theorem readings_append (es fs : List ProcessEvent) :
    readings (es ++ fs) = readings es ++ readings fs := List.filterMap_append

theorem transfers_updateGfx (es : List ProcessEvent) (now : Int) (o : Fin 4 → WriteOutcome) :
    transfers (es ++ [.updateGfx now o]) = transfers es := by
  rw [transfers_append]
  exact List.append_nil _

/-- A process whose disk answers every call keeps its ports ready for the next. -/
structure ProcessHeld (files : Files) (dir : String) (es : List ProcessEvent) (s : PakProcess) :
    Prop where
  sameDir : s.pak.store.dir = dir
  reloads : Reloads s.pak.store
  memory : ∀ k, s.pak.memory k = expected files dir (transfers es) k

theorem expected_snoc (files : Files) (dir : String) (es : List SiEvent) (e : SiEvent)
    {k : Fin 4 × Nat} (mapped : k.2 ≤ kBlockDetect) :
    expected files dir (es ++ [e]) k =
      match e.written with
      | some (stored, data) => if k = stored then data else expected files dir es k
      | none => expected files dir es k := by
  simp only [expected, mapped, if_true]
  exact contents_writes_snoc es e k

theorem memory_siStep_expected {files : Files} {dir : String} {es : List SiEvent} {w : SiState}
    {e : SiEvent} (ok : e.Succeeds) (before : ∀ k, w.memory k = expected files dir es k)
    (k : Fin 4 × Nat) : (siStep w e).memory k = expected files dir (es ++ [e]) k := by
  by_cases mapped : k.2 ≤ kBlockDetect
  · refine (memory_siStep ok mapped).trans ?_
    rw [before k]
    exact (expected_snoc files dir es e mapped).symm
  · rw [memory_unmapped (not_le.mp mapped), expected, if_neg mapped]

theorem memory_flush {w : SiState} {o : Fin 4 → WriteOutcome} (ok : (SiEvent.flush o).Succeeds)
    (k : Fin 4 × Nat) : (siStep w (.flush o)).memory k = w.memory k := by
  by_cases mapped : k.2 ≤ kBlockDetect
  · exact memory_siStep ok mapped
  · rw [memory_unmapped (not_le.mp mapped), memory_unmapped (not_le.mp mapped)]

theorem processHeld_step {files : Files} {dir : String} {es : List ProcessEvent} {s : PakProcess}
    (h : ProcessHeld files dir es s) {e : ProcessEvent} (ok : e.Succeeds) :
    ProcessHeld files dir (es ++ [e]) (processStep s e) := by
  cases e with
  | startDma rdram r4 r5 o =>
    refine ⟨(siStep_dir s.pak _).trans h.sameDir, reloads_siStep h.reloads ok, fun k => ?_⟩
    rw [transfers_append]
    exact memory_siStep_expected (e := .dma rdram r4 r5 o) ok h.memory k
  | updateGfx now o =>
    have same := transfers_updateGfx es now o
    simp only [processStep, PakProcess.updateGfx]
    split
    next =>
      refine ⟨(siStep_dir s.pak _).trans h.sameDir, reloads_siStep h.reloads ok, fun k => ?_⟩
      rw [same, memory_flush ok, h.memory]
    next => exact ⟨h.sameDir, h.reloads, fun k => by rw [same, h.memory]⟩

theorem processHeld_run (files : Files) {dir : String} (named : dir.isEmpty = false)
    {es : List ProcessEvent} (ok : ∀ e ∈ es, e.Succeeds) :
    ProcessHeld files dir es (run processStep (PakProcess.start files dir) es) := by
  have every : EveryStep processStep (fun _ e => e.Succeeds) (PakProcess.start files dir) es :=
    everyStep_iff_forall_mem.mpr ok
  refine run_history_induction (motive := ProcessHeld files dir) ?_
    (fun es e h here => processHeld_step h here) every
  refine ⟨rfl, reloads_opened files named, fun k => ?_⟩
  have none_yet : ∀ e ∈ ([] : List SiEvent), e.Succeeds := fun e h => absurd h List.not_mem_nil
  exact memory_run files dir none_yet k

/-- What the last flush has made of the disk: the pak after the events so far
seen, and when the next one is due. -/
structure Persisted (files : Files) (dir : String) (es : List ProcessEvent) (s : PakProcess)
    (seen rest : List ProcessEvent) : Prop where
  split : es = seen ++ rest
  stored : ∀ k : Fin 4 × Nat, k.2 < kBlockDetect →
    initialBlock s.pak.store.files dir k = expected files dir (transfers seen) k
  early : ∀ t ∈ readings rest, t < s.nextFlush
  due : s.nextFlush = 0 ∨ ∃ t ∈ readings seen, s.nextFlush = t + kSecond

theorem initialBlock_dma {dir : String} {w : SiState} (named : dir.isEmpty = false)
    (same : w.store.dir = dir) {rdram : Rdram} {r4 r5 : BitVec 64} {o : LoadOutcome}
    (ok : (SiEvent.dma rdram r4 r5 o).Succeeds) {k : Fin 4 × Nat} (mapped : k.2 < kBlockDetect) :
    initialBlock (siStep w (.dma rdram r4 r5 o)).store.files dir k =
      initialBlock w.store.files dir k := by
  subst same
  have kept := survivingImage_dma named ok k.1
  simp only [PakStore.slot, siStep_dir] at kept
  rw [initialBlock_next _ named mapped, initialBlock_next _ named mapped, kept]

/-- After a flush the next process would find the memory this one has. -/
theorem initialBlock_flush {dir : String} {w : SiState} (h : Reloads w.store)
    (same : w.store.dir = dir) {o : Fin 4 → WriteOutcome} (ok : (SiEvent.flush o).Succeeds)
    {k : Fin 4 × Nat} (mapped : k.2 < kBlockDetect) :
    initialBlock (siStep w (.flush o)).store.files dir k = w.memory k := by
  subst same
  have stored := survivingImage_flush h ok k.1
  simp only [PakStore.slot, siStep_dir] at stored
  rw [initialBlock_next _ h.1 mapped, stored, SiState.memory, dif_pos mapped]

theorem persisted_step {files : Files} {dir : String} (named : dir.isEmpty = false)
    {es : List ProcessEvent} {s : PakProcess} (held : ProcessHeld files dir es s)
    (h : ∃ seen rest, Persisted files dir es s seen rest) {e : ProcessEvent} (ok : e.Succeeds) :
    ∃ seen rest, Persisted files dir (es ++ [e]) (processStep s e) seen rest := by
  obtain ⟨seen, rest, split, stored, early, due⟩ := h
  cases e with
  | startDma rdram r4 r5 o =>
    refine ⟨seen, rest ++ [.startDma rdram r4 r5 o], by rw [split, List.append_assoc], ?_, ?_, due⟩
    · intro k mapped
      rw [processStep, initialBlock_dma named held.sameDir ok mapped, stored k mapped]
    · intro t ht
      rw [readings_append] at ht
      exact early t (by simpa [readings, ProcessEvent.reading] using ht)
  | updateGfx now o =>
    simp only [processStep, PakProcess.updateGfx]
    split
    next =>
      refine ⟨es ++ [.updateGfx now o], [], (List.append_nil _).symm, ?_, ?_, ?_⟩
      · intro k mapped
        rw [initialBlock_flush held.reloads held.sameDir ok mapped, held.memory,
          transfers_updateGfx]
      · intro t ht
        cases ht
      · exact Or.inr ⟨now, by simp [readings, ProcessEvent.reading], rfl⟩
    next later =>
      refine ⟨seen, rest ++ [.updateGfx now o], by rw [split, List.append_assoc], stored, ?_, due⟩
      intro t ht
      rw [readings_append] at ht
      rcases List.mem_append.mp ht with ht | ht
      · exact early t ht
      · have : t = now := by simpa [readings, ProcessEvent.reading] using ht
        omega

theorem persisted_run (files : Files) {dir : String} (named : dir.isEmpty = false)
    {es : List ProcessEvent} (ok : ∀ e ∈ es, e.Succeeds) :
    ∃ seen rest, Persisted files dir es (run processStep (PakProcess.start files dir) es)
      seen rest := by
  have both : ProcessHeld files dir es (run processStep (PakProcess.start files dir) es) ∧
      ∃ seen rest, Persisted files dir es (run processStep (PakProcess.start files dir) es)
        seen rest := by
    have every : EveryStep processStep (fun _ e => e.Succeeds) (PakProcess.start files dir) es :=
      everyStep_iff_forall_mem.mpr ok
    refine run_history_induction (motive := fun es s => ProcessHeld files dir es s ∧
      ∃ seen rest, Persisted files dir es s seen rest) ?_ ?_ every
    · refine ⟨processHeld_run files named fun e h => absurd h List.not_mem_nil, [], [], rfl, ?_, ?_,
        Or.inl rfl⟩
      · intro k mapped
        rw [expected, if_pos mapped.le]
        rfl
      · intro t ht
        cases ht
    · exact fun es e h here => ⟨processHeld_step h.1 here, persisted_step named h.1 h.2 here⟩
  exact both.2

/-- A process killed at any moment leaves the blocks as they were after some of its events, and
loses at most the last second of them: what two calls of `update_gfx` a second apart have come
after is found by the next. -/
theorem killed_process_loses_a_second (files : Files) {dir : String} (named : dir.isEmpty = false)
    {es : List ProcessEvent} (ok : ∀ e ∈ es, e.Succeeds) (steady : Steady es) :
    ∃ seen, seen <+: es ∧
      (∀ k : Fin 4 × Nat, k.2 < kBlockDetect →
        initialBlock (run processStep (PakProcess.start files dir) es).pak.store.files dir k =
          expected files dir (transfers seen) k) ∧
      ∀ before after, es = before ++ after →
        (∃ u ∈ readings after, ∃ t ∈ readings after, u + kSecond ≤ t) → before <+: seen := by
  obtain ⟨seen, rest, split, stored, early, due⟩ := persisted_run files named ok
  have ends : seen <+: es := ⟨rest, split.symm⟩
  refine ⟨seen, ends, stored, ?_⟩
  rintro before after rfl ⟨u, hu, t, ht, apart⟩
  rcases List.prefix_or_prefix_of_prefix (List.prefix_append before after) ends with h | h
  · exact h
  -- Otherwise both calls come after the last flush, and the later one was due.
  obtain ⟨middle, rfl⟩ := h
  have tail : rest = middle ++ after := by
    rw [List.append_assoc] at split
    exact (List.append_cancel_left split).symm
  have unflushed := early t <| by
    rw [tail, readings_append]
    exact List.mem_append_right _ ht
  rcases due with due | ⟨last, hlast, due⟩
  · have := steady.2 t (by rw [readings_append]; exact List.mem_append_right _ ht)
    omega
  · have sorted := steady.1
    rw [List.append_assoc, readings_append, List.pairwise_append] at sorted
    have := sorted.2.2 last hlast u (by rw [readings_append]; exact List.mem_append_right _ hu)
    omega

def wireWrite : ProcessEvent := .startDma (wireFrame 0x23 0x01 0x03 0x5A) 0 0x80000000 allOk

def callsApart : List ProcessEvent :=
  [.updateGfx 5 fun _ => allOk.write, .updateGfx (5 + kSecond) fun _ => allOk.write]

theorem wireWrite_succeeds : wireWrite.Succeeds := ⟨⟨rfl, rfl, le_rfl⟩, rfl, le_rfl⟩

theorem second_old_write_found :
    ∃ seen, seen <+: wireWrite :: callsApart ∧
      (∀ k : Fin 4 × Nat, k.2 < kBlockDetect →
        initialBlock (run processStep (PakProcess.start (fun _ => none) "cfg")
          (wireWrite :: callsApart)).pak.store.files "cfg" k =
          expected (fun _ => none) "cfg" (transfers seen) k) ∧
      [wireWrite] <+: seen := by
  have named : String.isEmpty "cfg" = false := rfl
  have whole : ∀ e ∈ wireWrite :: callsApart, e.Succeeds := by
    simp only [callsApart, List.forall_mem_cons]
    exact ⟨wireWrite_succeeds, fun _ => ⟨rfl, le_rfl⟩, fun _ => ⟨rfl, le_rfl⟩,
      fun e h => absurd h List.not_mem_nil⟩
  have clock : readings (wireWrite :: callsApart) = [5, 5 + kSecond] := rfl
  have steady : Steady (wireWrite :: callsApart) := by
    rw [Steady, clock]
    constructor <;> simp [kSecond]
  have calls : readings callsApart = [5, 5 + kSecond] := rfl
  obtain ⟨seen, ends, stored, kept⟩ :=
    killed_process_loses_a_second (fun _ => none) named whole steady
  refine ⟨seen, ends, stored, kept [wireWrite] callsApart rfl ⟨5, ?_, 5 + kSecond, ?_, le_rfl⟩⟩
  · simp [calls]
  · simp [calls]

/-- One process: its events, and the flush `main` ends with unless the process
is killed or `recomp::start` throws. -/
structure Process where
  events : List ProcessEvent
  ending : Option (Fin 4 → WriteOutcome)

def Process.Succeeds (p : Process) : Prop :=
  (∀ e ∈ p.events, e.Succeeds) ∧ ∀ o, p.ending = some o → (SiEvent.flush o).Succeeds

/-- The disk a process leaves behind. -/
def runProcess (dir : String) (files : Files) (p : Process) : Files :=
  match p.ending with
  | some o => (flush (run processStep (PakProcess.start files dir) p.events).pak.store o).files
  | none => (run processStep (PakProcess.start files dir) p.events).pak.store.files

/-- What of a process the next one remembers: all of it after a clean end. -/
def Process.Remembered (p : Process) (seen : List ProcessEvent) : Prop :=
  seen <+: p.events ∧ (p.ending.isSome → seen = p.events)

/-- What a read frame is to be answered with: the blocks outlive a process, the
identify register does not. -/
def recalled (files : Files) (dir : String) (past now : List ProcessEvent) (k : Fin 4 × Nat) :
    Block :=
  if k.2 < kBlockDetect then
    contents (initialBlock files dir) (writes (transfers (past ++ now))) k
  else if k.2 = kBlockDetect then contents (fun _ _ => 0) (writes (transfers now)) k
  else fun _ => 0

theorem initialBlock_process (files : Files) {dir : String} (named : dir.isEmpty = false)
    {p : Process} (ok : p.Succeeds) :
    ∃ seen, p.Remembered seen ∧ ∀ k : Fin 4 × Nat, k.2 < kBlockDetect →
      initialBlock (runProcess dir files p) dir k =
        contents (initialBlock files dir) (writes (transfers seen)) k := by
  cases ending : p.ending with
  | none =>
    obtain ⟨seen, rest, split, stored, _, _⟩ := persisted_run files named ok.1
    refine ⟨seen, ⟨⟨rest, split.symm⟩, fun ended => ?_⟩, fun k mapped => ?_⟩
    · rw [ending] at ended
      cases ended
    · have left := stored k mapped
      rw [expected, if_pos mapped.le] at left
      rw [runProcess, ending, left]
  | some o =>
    have held := processHeld_run files named ok.1
    refine ⟨p.events, ⟨List.prefix_rfl, fun _ => rfl⟩, fun k mapped => ?_⟩
    have left := initialBlock_flush held.reloads held.sameDir (ok.2 o ending) mapped
    rw [held.memory, expected, if_pos mapped.le] at left
    rw [runProcess, ending]
    exact left

theorem contents_congr {f g : Fin 4 × Nat → Block} {log : List ((Fin 4 × Nat) × Block)}
    {k : Fin 4 × Nat} (same : f k = g k) : contents f log k = contents g log k := by
  rw [contents, contents, same]

/-- The disk after any number of processes is that of one memory that saw what
each of them left to the next. -/
theorem initialBlock_processes {dir : String} (named : dir.isEmpty = false) (ps : List Process)
    (files : Files) (ok : ∀ p ∈ ps, p.Succeeds) :
    ∃ seen, List.Forall₂ Process.Remembered ps seen ∧ ∀ k : Fin 4 × Nat, k.2 < kBlockDetect →
      initialBlock (run (runProcess dir) files ps) dir k =
        contents (initialBlock files dir) (writes (transfers seen.flatten)) k := by
  induction ps generalizing files with
  | nil => exact ⟨[], List.Forall₂.nil, fun k _ => rfl⟩
  | cons p ps ih =>
    obtain ⟨first, remembered, left⟩ := initialBlock_process files named (ok p List.mem_cons_self)
    obtain ⟨seen, each, stored⟩ :=
      ih (runProcess dir files p) fun q h => ok q (List.mem_cons_of_mem p h)
    refine ⟨first :: seen, List.Forall₂.cons remembered each, fun k mapped => ?_⟩
    rw [run_cons, stored k mapped, contents_congr (left k mapped), ← contents_append,
      List.flatten_cons, transfers_append, writes, writes, writes, List.filterMap_append]

/-- Process after process, the pak answers like one memory that forgets the
identify registers and whatever a process that was killed had not flushed. -/
theorem processes_share_one_memory (files : Files) {dir : String} (named : dir.isEmpty = false)
    {ps : List Process} (ok : ∀ p ∈ ps, p.Succeeds) :
    ∃ seen, List.Forall₂ Process.Remembered ps seen ∧
      ∀ es : List ProcessEvent, (∀ e ∈ es, e.Succeeds) →
      ∀ (rdram : Rdram) (r4 r5 : BitVec 64) (c : Fin 4) (o : LoadOutcome),
      Serves rdram r4 r5 c .read → ReadsWhole o.read → ∀ i : Fin kBlockSize,
      (osSiRawStartDma (run processStep
        (PakProcess.start (run (runProcess dir) files ps) dir) es).pak rdram r4 r5 o).rdram
          (siAddress r5 + c.val + 6 + i.val) =
        recalled files dir seen.flatten es (c, frameBlock rdram (siAddress r5 + c.val)) i := by
  obtain ⟨seen, each, stored⟩ := initialBlock_processes named ps files ok
  refine ⟨seen, each, fun es succeeds rdram r4 r5 c o served read i => ?_⟩
  have held := processHeld_run (run (runProcess dir) files ps) named succeeds
  rw [dma_read served read, readReply_data, held.memory]
  generalize (c, frameBlock rdram (siAddress r5 + c.val)) = k
  unfold expected recalled
  by_cases mapped : k.2 < kBlockDetect
  · rw [if_pos mapped.le, if_pos mapped, contents_congr (stored k mapped), ← contents_append,
      transfers_append, writes, writes, writes, List.filterMap_append]
  · by_cases register : k.2 = kBlockDetect
    · have zeros : initialBlock (run (runProcess dir) files ps) dir k = fun _ => 0 :=
        dif_neg mapped
      rw [if_pos register.le, if_neg mapped, if_pos register,
        contents_congr (g := fun _ _ => 0) zeros]
    · rw [if_neg (by omega), if_neg mapped, if_neg register]

theorem clean_end_outlives_process :
    (fun i : Fin kBlockSize => (osSiRawStartDma (run processStep (PakProcess.start
      (run (runProcess "cfg") (fun _ => none) [⟨[wireWrite], some fun _ => allOk.write⟩]) "cfg")
      []).pak (wireFrame 0x03 0x21 0x02 0) 0 0x80000000 allOk).rdram
        (siAddress 0x80000000 + 1 + 6 + i.val)) = fun _ => 0x5A := by
  have named : String.isEmpty "cfg" = false := rfl
  have ok : ∀ p ∈ [Process.mk [wireWrite] (some fun _ => allOk.write)], p.Succeeds := by
    intro p h
    rw [List.mem_singleton.mp h]
    refine ⟨fun e h => ?_, fun o same => ?_⟩
    · rw [List.mem_singleton.mp h]
      exact wireWrite_succeeds
    · cases same
      exact fun _ => ⟨rfl, le_rfl⟩
  obtain ⟨seen, each, replies⟩ := processes_share_one_memory (fun _ => none) named ok
  obtain ⟨all, rfl⟩ : ∃ all, seen = [all] := by
    cases each with
    | cons _ none => exact ⟨_, by rw [List.forall₂_nil_left_iff.mp none]⟩
  obtain rfl : all = [wireWrite] := (List.forall₂_cons.mp each).1.2 rfl
  funext i
  refine (replies [] (fun e h => absurd h List.not_mem_nil) (wireFrame 0x03 0x21 0x02 0) 0 0x80000000
    1 allOk (by decide) ⟨rfl, rfl, le_rfl⟩ i).trans ?_
  revert i
  decide

end Rayman2Recomp
