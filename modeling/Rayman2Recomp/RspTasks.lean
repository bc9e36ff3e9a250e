import Rayman2Recomp.RspDispatch
import Rayman2Recomp.BigEndian

namespace Rayman2Recomp

section

variable {μ : Type} {mem : RspMemory μ} {handle : UInt32 → Rsp μ → Rsp μ}

/-- A command that keeps the registers and stores among the parameters only. -/
theorem ReadsAlike.leavesLoop {target : UInt32 → UInt32} {cs : List AudioCommand} {label : UInt32}
    {s after : Rsp μ} (alike : ReadsAlike mem s.machine after.machine) (same : SameLoop s after)
    (enters : EntersCommand target cs label s) : LeavesLoop mem s after := by
  obtain ⟨r23, r24, r27, r28, r29, r30⟩ := same
  refine ⟨r23, r24, r27, r28, r29, r30, fun i _ => alike.dram _, ?_, ?_⟩
  · intro i hi
    obtain ⟨low, high⟩ := enters.batch i hi
    exact alike.batch _ low high
  · intro word
    exact alike.table _ (tableEntry_low word)

/-- A halfword of the parameters at `r24`. -/
theorem parameter_readsAlike (doc : mem.Documented) {s : Rsp μ} (r24 : s.r24 = 0x360) {k : UInt32}
    (inside : k.toNat ≤ 0x1E) (m : μ) (value : UInt32) :
    ReadsAlike mem m (mem.storeH m (k + s.r24) value) := by
  have base : UInt32.toNat 0x360 = 0x360 := rfl
  have address : (k + s.r24).toNat = k.toNat + 0x360 := by
    rw [r24, UInt32.toNat_add]
    omega
  exact half_readsAlike doc m value (by omega) (by omega)

theorem setSegment_readsAlike (doc : mem.Documented) {s : Rsp μ} (id : s.r25.toNat < 24 * 2 ^ 24) :
    ReadsAlike mem s.machine (setSegment mem s).machine ∧ SameLoop s (setSegment mem s) := by
  have base : UInt32.toNat 0x320 = 0x320 := rfl
  have offset : ((0 : UInt32) + (s.r25 >>> 24) <<< 2).toNat = 4 * (s.r25.toNat / 2 ^ 24) := by
    have shift : UInt32.toNat 24 % 32 = 24 := rfl
    have scale : UInt32.toNat 2 % 32 = 2 := rfl
    rw [UInt32.zero_add, UInt32.toNat_shiftLeft, UInt32.toNat_shiftRight, shift, scale,
      Nat.shiftRight_eq_div_pow, Nat.shiftLeft_eq]
    omega
  have address : ((0x320 : UInt32) + ((0 : UInt32) + (s.r25 >>> 24) <<< 2)).toNat =
      0x320 + 4 * (s.r25.toNat / 2 ^ 24) := by
    rw [UInt32.toNat_add, offset]
    omega
  refine ⟨?_, rfl, rfl, rfl, rfl, rfl, rfl⟩
  change ReadsAlike mem s.machine
    (mem.storeW s.machine ((0x320 : UInt32) + ((0 : UInt32) + (s.r25 >>> 24) <<< 2)) _)
  exact stored_readsAlike doc s.machine _ (by omega) (by omega)

theorem parameters_readsAlike (doc : mem.Documented) {s : Rsp μ} (r24 : s.r24 = 0x360)
    {i j k : UInt32} (first : i.toNat ≤ 0x1E) (second : j.toNat ≤ 0x1E) (third : k.toNat ≤ 0x1E)
    (m : μ) (u v w : UInt32) :
    ReadsAlike mem m
      (mem.storeH (mem.storeH (mem.storeH m (i + s.r24) u) (j + s.r24) v) (k + s.r24) w) := by
  have one := parameter_readsAlike doc r24 first m u
  have two := parameter_readsAlike doc r24 second (mem.storeH m (i + s.r24) u) v
  exact (one.trans two).trans (parameter_readsAlike doc r24 third _ w)

theorem setBuffers_readsAlike (doc : mem.Documented) {s : Rsp μ} (r24 : s.r24 = 0x360) :
    ReadsAlike mem s.machine (setBuffers mem s).machine ∧ SameLoop s (setBuffers mem s) := by
  simp only [setBuffers]
  split
  next =>
    refine ⟨?_, rfl, rfl, rfl, rfl, rfl, rfl⟩
    exact parameters_readsAlike doc r24 (by decide) (by decide) (by decide) _ _ _ _
  next =>
    refine ⟨?_, rfl, rfl, rfl, rfl, rfl, rfl⟩
    exact parameters_readsAlike doc r24 (by decide) (by decide) (by decide) _ _ _ _

theorem setVolume_readsAlike (doc : mem.Documented) {s : Rsp μ} (r24 : s.r24 = 0x360) :
    ReadsAlike mem s.machine (setVolume mem s).machine ∧ SameLoop s (setVolume mem s) := by
  simp only [setVolume]
  split
  next =>
    refine ⟨?_, rfl, rfl, rfl, rfl, rfl, rfl⟩
    have first := parameter_readsAlike doc r24 (by decide : UInt32.toNat 0x1C ≤ 0x1E) s.machine s.r26
    exact first.trans (parameter_readsAlike doc r24 (by decide) _ _)
  next =>
    split
    next =>
      split
      next =>
        exact ⟨parameter_readsAlike doc r24 (by decide) _ _, rfl, rfl, rfl, rfl, rfl, rfl⟩
      next =>
        exact ⟨parameter_readsAlike doc r24 (by decide) _ _, rfl, rfl, rfl, rfl, rfl, rfl⟩
    next =>
      split
      next =>
        refine ⟨?_, rfl, rfl, rfl, rfl, rfl, rfl⟩
        exact parameters_readsAlike doc r24 (by decide) (by decide) (by decide) _ _ _ _
      next =>
        refine ⟨?_, rfl, rfl, rfl, rfl, rfl, rfl⟩
        exact parameters_readsAlike doc r24 (by decide) (by decide) (by decide) _ _ _ _

theorem setLoop_readsAlike (doc : mem.Documented) {s : Rsp μ} (r24 : s.r24 = 0x360) :
    ReadsAlike mem s.machine (setLoop mem s).machine ∧ SameLoop s (setLoop mem s) := by
  have base : (0x10 + 0x360 : UInt32).toNat = 0x370 := rfl
  have address : (0x10 + s.r24).toNat = 0x370 := by rw [r24, base]
  refine ⟨?_, rfl, rfl, rfl, rfl, rfl, rfl⟩
  change ReadsAlike mem s.machine (mem.storeW s.machine (0x10 + s.r24) _)
  exact stored_readsAlike doc s.machine _ (by omega) (by omega)

theorem step_calls {label : AudioLabel} {s after : Rsp μ} {command : UInt32}
    (h : audioStep mem handle label s = .call command after) : after = handle command s := by
  cases label with
  | command own =>
    cases h
    rfl
  | doIndirectJump =>
    change doIndirectJump s = _ at h
    unfold doIndirectJump at h
    split_ifs at h
  | entry | l10A8 | l10C8 | l10D4 | l1118 | l1150 | l1184 | l1190 =>
    simp only [audioStep] at h
    split_ifs at h
  | l10B4 | l10C0 | l10E4 | l1130 | l1138 | l1148 | l116C | l1178 => cases h

theorem called_after (fuel : Nat) {label : AudioLabel} {s : Rsp μ} {call : AudioCall μ}
    (hc : call ∈ (playAudio mem handle fuel label s).calls) :
    call.after = handle call.label call.before := by
  induction fuel generalizing label s with
  | zero => exact absurd hc List.not_mem_nil
  | succ fuel ih =>
    rw [playAudio] at hc
    split at hc
    next => exact ih hc
    next command after reached =>
      rcases List.mem_cons.mp hc with rfl | later
      · exact step_calls reached
      · exact ih later
    next => exact absurd hc List.not_mem_nil

/-- Commands that only set parameters, of segments inside the table. -/
def Setting (target : UInt32 → UInt32) (c : AudioCommand) : Prop :=
  target c.1 = 0x1118 ∨ target c.1 = 0x12D0 ∧ c.2.toNat < 24 * 2 ^ 24 ∨ target c.1 = 0x12EC ∨
    target c.1 = 0x1328 ∨ target c.1 = 0x144C

theorem Setting.known {target : UInt32 → UInt32} {c : AudioCommand} (h : Setting target c) :
    target c.1 = 0x1118 ∨ target c.1 ∈ commandLabels := by
  rcases h with noop | ⟨segment, -⟩ | buffers | volume | loop
  · exact Or.inl noop
  · rw [segment]
    exact Or.inr (by decide)
  · rw [buffers]
    exact Or.inr (by decide)
  · rw [volume]
    exact Or.inr (by decide)
  · rw [loop]
    exact Or.inr (by decide)

theorem Setting.careful (doc : mem.Documented) {target : UInt32 → UInt32} {cs : List AudioCommand}
    (settings : ∀ c ∈ cs, Setting target c) (other : UInt32 → Rsp μ → Rsp μ) (label : AudioLabel)
    (s : Rsp μ) : Careful mem (settingCommand mem other) target cs label s := by
  intro fuel call hc enters
  rw [called_after fuel hc]
  have kept : ReadsAlike mem call.before.machine
        (settingCommand mem other call.label call.before).machine ∧
      SameLoop call.before (settingCommand mem other call.label call.before) := by
    have known := enters.known
    rcases settings _ enters.words with noop | ⟨segment, inside⟩ | buffers | volume | loop
    · rw [enters.target, noop] at known
      exact absurd known (by decide)
    · rw [enters.target, segment]
      exact setSegment_readsAlike doc inside
    · rw [enters.target, buffers]
      exact setBuffers_readsAlike doc enters.r24
    · rw [enters.target, volume]
      exact setVolume_readsAlike doc enters.r24
    · rw [enters.target, loop]
      exact setLoop_readsAlike doc enters.r24
  exact kept.1.leavesLoop kept.2 enters

theorem interpretList_known {target : UInt32 → UInt32} {cs : List AudioCommand}
    (known : ∀ c ∈ cs, target c.1 = 0x1118 ∨ target c.1 ∈ commandLabels) :
    interpretList target cs =
      ((cs.filter (fun c => target c.1 ≠ 0x1118)).map (fun c => (target c.1, c)), .broke) := by
  induction cs with
  | nil => rfl
  | cons c cs ih =>
    have later := ih (fun d hd => known d (List.mem_cons_of_mem c hd))
    rw [interpretList, later]
    by_cases noop : target c.1 = 0x1118
    · rw [if_pos noop, List.filter_cons_of_neg (by simpa using noop)]
    · have listed := (known c List.mem_cons_self).resolve_left noop
      rw [if_neg noop, if_pos listed, List.filter_cons_of_pos (by simpa using noop), List.map_cons]

end

open ByteMemory

/-- DMEM and RDRAM by bytes. -/
structure AudioMachine where
  dmem : Mem
  rdram : Mem

def copyIn (m : AudioMachine) (dmem dram len : Int) : Mem := fun a =>
  if dmem ≤ a ∧ a ≤ dmem + len then m.rdram (dram + (a - dmem)) else m.dmem a

/-- DMEM wraps after 4 KB; a DMA starts at a multiple of eight in the first 16 MB. -/
def audioMemory : RspMemory AudioMachine where
  loadW m a := ⟨loadWord m.dmem (a.toNat % 0x1000 : Nat)⟩
  loadH m a := ⟨(loadHalf m.dmem (a.toNat % 0x1000 : Nat)).signExtend 32⟩
  storeW m a value := { m with dmem := storeWord m.dmem (a.toNat % 0x1000 : Nat) value.toBitVec }
  storeH m a value :=
    { m with dmem := storeHalf m.dmem (a.toNat % 0x1000 : Nat) (value.toBitVec.setWidth 16) }
  dmaRead m dmem dram len :=
    { m with
      dmem := copyIn m (dmem.toNat % 0x1000 : Nat) (dram.toNat % 2 ^ 24 / 8 * 8 : Nat) len.toNat }
  dramW m a := ⟨loadWord m.rdram (a.toNat % 2 ^ 24 : Nat)⟩

theorem loadWord_shift {m n : Mem} {a b : Int}
    (same : ∀ j : Int, 0 ≤ j → j < 4 → m (a + j) = n (b + j)) : loadWord m a = loadWord n b := by
  have half : ∀ k : Int, 0 ≤ k → k ≤ 2 → loadHalf m (a + k) = loadHalf n (b + k) := by
    intro k low high
    have next := same (k + 1) (by omega) (by omega)
    rw [← Int.add_assoc, ← Int.add_assoc] at next
    rw [loadHalf, loadHalf, loadByte, loadByte, loadByte, loadByte, same k low (by omega), next]
  have first := half 0 (by omega) (by omega)
  rw [Int.add_zero, Int.add_zero] at first
  rw [loadWord, loadWord, first, half 2 (by omega) (by omega)]

theorem audioMemory_documented : audioMemory.Documented where
  copied m dmem dram len i aligned _ inDmem inDram word inside := by
    have here : (dmem + i).toNat % 0x1000 = dmem.toNat + i.toNat := by
      rw [UInt32.toNat_add]
      omega
    have there : (dram + i).toNat % 2 ^ 24 = dram.toNat % 2 ^ 24 + i.toNat := by
      have wrapped : (dram.toNat + i.toNat) % 2 ^ 32 % 2 ^ 24 = (dram.toNat + i.toNat) % 2 ^ 24 := by
        omega
      rw [UInt32.toNat_add, wrapped]
      omega
    have bits : loadWord (copyIn m (dmem.toNat % 0x1000 : Nat) (dram.toNat % 2 ^ 24 / 8 * 8 : Nat)
        len.toNat) ((dmem + i).toNat % 0x1000 : Nat) =
        loadWord m.rdram ((dram + i).toNat % 2 ^ 24 : Nat) := by
      refine loadWord_shift (fun j low high => ?_)
      rw [here, there, copyIn, if_pos (by omega)]
      congr 1
      omega
    exact congrArg UInt32.ofBitVec bits
  below m dmem dram len a inDmem low := by
    have bits : loadHalf (copyIn m (dmem.toNat % 0x1000 : Nat) (dram.toNat % 2 ^ 24 / 8 * 8 : Nat)
        len.toNat) (a.toNat % 0x1000 : Nat) = loadHalf m.dmem (a.toNat % 0x1000 : Nat) := by
      refine loadHalf_congr (fun x lower upper => ?_)
      rw [copyIn, if_neg (by omega)]
    exact congrArg (fun half => UInt32.ofBitVec (half.signExtend 32)) bits
  read_dram _ _ _ _ _ := rfl
  stored_word m dmem value a low high := by
    have apart : Apart (dmem.toNat % 0x1000 : Nat) 4 (a.toNat % 0x1000 : Nat) 4 :=
      Or.inl (by omega)
    exact congrArg UInt32.ofBitVec (loadWord_storeWord_apart apart)
  stored_below m dmem value a low high := by
    have bits : loadHalf (storeWord m.dmem (dmem.toNat % 0x1000 : Nat) value.toBitVec)
        (a.toNat % 0x1000 : Nat) = loadHalf m.dmem (a.toNat % 0x1000 : Nat) :=
      loadHalf_congr (fun x lower upper => storeWord_outside (by omega))
    exact congrArg (fun half => UInt32.ofBitVec (half.signExtend 32)) bits
  stored_dram _ _ _ _ := rfl
  half_word m dmem value a low high := by
    have bits : loadWord (storeHalf m.dmem (dmem.toNat % 0x1000 : Nat) (value.toBitVec.setWidth 16))
        (a.toNat % 0x1000 : Nat) = loadWord m.dmem (a.toNat % 0x1000 : Nat) :=
      loadWord_congr (fun x lower upper => storeHalf_outside (by omega))
    exact congrArg UInt32.ofBitVec bits
  half_below m dmem value a low high := by
    have apart : Apart (dmem.toNat % 0x1000 : Nat) 2 (a.toNat % 0x1000 : Nat) 2 :=
      Or.inr (by omega)
    exact congrArg (fun half => UInt32.ofBitVec (half.signExtend 32))
      (loadHalf_storeHalf_apart apart)
  half_dram _ _ _ _ := rfl

/-- The audio data's jump table and the head of a task of two commands at 0x1000. -/
def settingTask : AudioMachine where
  dmem := storeWord (storeWord (storeHalf (storeHalf (fun _ => 0) 0x10 0x1118) 0x1E 0x12D0)
    0xFF0 0x1000) 0xFF4 16
  rdram := storeWord (storeWord (fun _ => 0) 0x1000 0x07000000) 0x1004 0x03012340

def settingList : List AudioCommand := [(0x07000000, 0x03012340), (0, 0)]

theorem settingTask_task : AudioTask audioMemory settingTask settingList where
  some := by decide
  list := ⟨by decide, by decide, by decide, by decide, trivial⟩
  size := by decide
  aligned := by decide
  inside := by decide
  table c hc := by
    rcases List.mem_cons.mp hc with rfl | hc
    · decide
    · obtain rfl := List.mem_singleton.mp hc
      decide

theorem settingTask_settings (c : AudioCommand) (hc : c ∈ settingList) :
    Setting (commandTarget audioMemory settingTask) c := by
  rcases List.mem_cons.mp hc with rfl | hc
  · exact Or.inr (Or.inl (by decide))
  · obtain rfl := List.mem_singleton.mp hc
    exact Or.inl (by decide)

/-- The microcode is an interpreter of the task's command list. -/
theorem rayman2RspAudio_interprets {μ : Type} {mem : RspMemory μ}
    {handle : UInt32 → Rsp μ → Rsp μ} (doc : mem.Documented) {m : μ}
    {cs : List AudioCommand} (task : AudioTask mem m cs)
    (careful : Careful mem handle (commandTarget mem m) cs .entry (Rsp.reset m)) :
    ∃ k calls, (∀ fuel, rayman2RspAudio mem handle (fuel + k) m =
        ⟨calls, some (interpretList (commandTarget mem m) cs).2⟩) ∧
      calls.map AudioCall.words = (interpretList (commandTarget mem m) cs).1 := by
  obtain ⟨calls, ⟨k, exits⟩, words, -⟩ := task_interprets doc task careful
  exact ⟨k, calls, exits, words⟩

theorem rayman2RspAudio_settingTask :
    ∃ k calls, (∀ fuel, rayman2RspAudio audioMemory (settingCommand audioMemory fun _ s => s)
        (fuel + k) settingTask = ⟨calls, some .broke⟩) ∧
      calls.map AudioCall.words = [(0x12D0, 0x07000000, 0x03012340)] := by
  have careful := Setting.careful audioMemory_documented settingTask_settings (fun _ s => s) .entry
    (Rsp.reset settingTask)
  obtain ⟨k, calls, exits, words⟩ :=
    rayman2RspAudio_interprets audioMemory_documented settingTask_task careful
  have known := interpretList_known (fun c hc => (settingTask_settings c hc).known)
  rw [known] at exits words
  exact ⟨k, calls, exits, words.trans (by decide)⟩

/-- A list of settings runs to its end with each setting made once, whatever the
other commands do, and none of them touches what the loop reads. -/
theorem settings_interpreted {μ : Type} {mem : RspMemory μ} (doc : mem.Documented) {m : μ}
    {cs : List AudioCommand} (task : AudioTask mem m cs)
    (settings : ∀ c ∈ cs, Setting (commandTarget mem m) c) (other : UInt32 → Rsp μ → Rsp μ) :
    ∃ k calls, (∀ fuel, rayman2RspAudio mem (settingCommand mem other) (fuel + k) m =
        ⟨calls, some .broke⟩) ∧
      calls.map AudioCall.words = (cs.filter (fun c => commandTarget mem m c.1 ≠ 0x1118)).map
        (fun c => (commandTarget mem m c.1, c)) ∧
      ∀ call ∈ calls, LeavesLoop mem call.before call.after := by
  have careful := Setting.careful doc settings other .entry (Rsp.reset m)
  have interpreted := interpretList_known (fun c hc => (settings c hc).known)
  obtain ⟨calls, ⟨k, exits⟩, words, leave⟩ := task_interprets doc task careful
  rw [interpreted] at exits words
  exact ⟨k, calls, exits, words, leave⟩

theorem settings_interpreted_settingTask :
    ∃ k calls, (∀ fuel, rayman2RspAudio audioMemory (settingCommand audioMemory fun _ s => s)
        (fuel + k) settingTask = ⟨calls, some .broke⟩) ∧
      calls.map AudioCall.words = [(0x12D0, 0x07000000, 0x03012340)] ∧
      ∀ call ∈ calls, LeavesLoop audioMemory call.before call.after := by
  obtain ⟨k, calls, exits, words, leave⟩ := settings_interpreted audioMemory_documented settingTask_task
    settingTask_settings (fun _ s => s)
  exact ⟨k, calls, exits, words.trans (by decide), leave⟩

end Rayman2Recomp
