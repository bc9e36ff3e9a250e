import Rayman2Recomp.RspAudio

namespace Rayman2Recomp

theorem rspSigned_pos_iff {r : UInt32} :
    rspSigned r > 0 ↔ 0 < r.toNat ∧ r.toNat < 2 ^ 31 := by
  have bound := r.toNat_lt
  unfold rspSigned
  rw [BitVec.toInt_eq_toNat_cond, UInt32.toNat_toBitVec]
  split <;> omega

theorem rspSigned_nonpos_iff {r : UInt32} :
    rspSigned r ≤ 0 ↔ r.toNat = 0 ∨ 2 ^ 31 ≤ r.toNat := by
  have pos := @rspSigned_pos_iff r
  omega

/-- One entry of an audio command list. -/
abbrev AudioCommand := UInt32 × UInt32

/-- The command list stands at `a` in what `read` reads. -/
def HoldsAt (read : UInt32 → UInt32) (a : UInt32) : List AudioCommand → Prop
  | [] => True
  | c :: cs => read a = c.1 ∧ read (a + 4) = c.2 ∧ HoldsAt read (a + 8) cs

/-- Where the jump table has the command of this word. -/
def tableEntry (word : UInt32) : UInt32 := (0x10 : UInt32) + ((0 : UInt32) + ((word >>> 23) &&& 0xFE))

theorem tableEntry_low (word : UInt32) : (tableEntry word).toNat + 2 ≤ 0x320 := by
  have masked : ((word >>> 23) &&& 0xFE).toNat ≤ 0xFE := by
    rw [UInt32.toNat_and]
    exact Nat.and_le_right
  unfold tableEntry
  rw [UInt32.zero_add, UInt32.toNat_add]
  have sixteen : UInt32.toNat 0x10 = 0x10 := rfl
  omega

/-- A list whose words are read again at `b` stands there too. -/
theorem HoldsAt.copy {read read' : UInt32 → UInt32} {a b : UInt32} {cs : List AudioCommand}
    (small : 8 * cs.length < 2 ^ 32)
    (same : ∀ i : UInt32, i.toNat % 4 = 0 → i.toNat + 4 ≤ 8 * cs.length →
      read' (b + i) = read (a + i))
    (h : HoldsAt read a cs) : HoldsAt read' b cs := by
  induction cs generalizing a b with
  | nil => trivial
  | cons c cs ih =>
    obtain ⟨first, second, rest⟩ := h
    rw [List.length_cons] at small same
    have four : UInt32.toNat 4 = 4 := rfl
    have eight : UInt32.toNat 8 = 8 := rfl
    refine ⟨?_, ?_, ih (by omega) ?_ rest⟩
    · have here := same 0 (by rw [UInt32.toNat_zero]) (by rw [UInt32.toNat_zero]; omega)
      rwa [UInt32.add_zero, UInt32.add_zero, first] at here
    · rw [same 4 (by omega) (by omega), second]
    · intro i word inside
      have moved : (8 + i).toNat = 8 + i.toNat := by
        rw [UInt32.toNat_add]
        omega
      have here := same (8 + i) (by omega) (by omega)
      rwa [← UInt32.add_assoc, ← UInt32.add_assoc] at here

theorem HoldsAt.take {read : UInt32 → UInt32} {a : UInt32} {cs : List AudioCommand}
    (h : HoldsAt read a cs) (n : Nat) : HoldsAt read a (cs.take n) := by
  induction cs generalizing a n with
  | nil => simpa using h
  | cons c cs ih =>
    cases n with
    | zero => trivial
    | succ n => exact ⟨h.1, h.2.1, ih h.2.2 n⟩

section

variable {μ : Type} {mem : RspMemory μ} {handle : UInt32 → Rsp μ → Rsp μ}

/-- What the command loop relies on: DMA reads copy RDRAM into DMEM and touch
nothing else, and a stored word is the only one that changes. -/
structure RspMemory.Documented (mem : RspMemory μ) : Prop where
  copied : ∀ m (dmem dram len i : UInt32), dram.toNat % 8 = 0 → dmem.toNat % 8 = 0 →
    dmem.toNat + len.toNat < 0x1000 → dram.toNat % 2 ^ 24 + len.toNat < 2 ^ 24 →
    i.toNat % 4 = 0 → i.toNat + 3 ≤ len.toNat →
    mem.loadW (mem.dmaRead m dmem dram len) (dmem + i) = mem.dramW m (dram + i)
  below : ∀ m (dmem dram len a : UInt32), dmem.toNat + len.toNat < 0x1000 → a.toNat + 2 ≤ dmem.toNat →
    mem.loadH (mem.dmaRead m dmem dram len) a = mem.loadH m a
  read_dram : ∀ m (dmem dram len a : UInt32),
    mem.dramW (mem.dmaRead m dmem dram len) a = mem.dramW m a
  stored_word : ∀ m (dmem value a : UInt32), dmem.toNat + 4 ≤ a.toNat → a.toNat + 4 ≤ 0x1000 →
    mem.loadW (mem.storeW m dmem value) a = mem.loadW m a
  stored_below : ∀ m (dmem value a : UInt32), dmem.toNat + 4 ≤ 0x1000 → a.toNat + 2 ≤ dmem.toNat →
    mem.loadH (mem.storeW m dmem value) a = mem.loadH m a
  stored_dram : ∀ m (dmem value a : UInt32), mem.dramW (mem.storeW m dmem value) a = mem.dramW m a
  half_word : ∀ m (dmem value a : UInt32), dmem.toNat + 2 ≤ a.toNat → a.toNat + 4 ≤ 0x1000 →
    mem.loadW (mem.storeH m dmem value) a = mem.loadW m a
  half_below : ∀ m (dmem value a : UInt32), dmem.toNat + 2 ≤ 0x1000 → a.toNat + 2 ≤ dmem.toNat →
    mem.loadH (mem.storeH m dmem value) a = mem.loadH m a
  half_dram : ∀ m (dmem value a : UInt32), mem.dramW (mem.storeH m dmem value) a = mem.dramW m a

/-- How the loop enters a command of the list, at its label in the jump table. -/
structure EntersCommand (target : UInt32 → UInt32) (cs : List AudioCommand) (label : UInt32)
    (s : Rsp μ) : Prop where
  words : (s.r26, s.r25) ∈ cs
  target : label = target s.r26
  known : label ∈ commandLabels
  r23 : s.r23 = 0xF90
  r24 : s.r24 = 0x360
  batch : ∀ i < s.r30, 0x380 ≤ (s.r29 + i).toNat ∧ (s.r29 + i).toNat + 4 ≤ 0x1000

/-- A command leaves the loop its registers, the words it has still to read
and the jump table. -/
structure LeavesLoop (mem : RspMemory μ) (before after : Rsp μ) : Prop where
  r23 : after.r23 = before.r23
  r24 : after.r24 = before.r24
  r27 : after.r27 = before.r27
  r28 : after.r28 = before.r28
  r29 : after.r29 = before.r29
  r30 : after.r30 = before.r30
  list : ∀ i < before.r27, mem.dramW after.machine (before.r28 + i) =
    mem.dramW before.machine (before.r28 + i)
  batch : ∀ i < before.r30, mem.loadW after.machine (before.r29 + i) =
    mem.loadW before.machine (before.r29 + i)
  table : ∀ word, mem.loadH after.machine (tableEntry word) =
    mem.loadH before.machine (tableEntry word)

/-- From one label to another in a number of steps, with these commands on the way. -/
def Leads (mem : RspMemory μ) (handle : UInt32 → Rsp μ → Rsp μ) (label : AudioLabel) (s : Rsp μ)
    (calls : List (AudioCall μ)) (label' : AudioLabel) (s' : Rsp μ) : Prop :=
  ∃ k, ∀ fuel, playAudio mem handle (fuel + k) label s =
    ⟨calls ++ (playAudio mem handle fuel label' s').calls,
      (playAudio mem handle fuel label' s').result⟩

theorem Leads.trans {l₁ l₂ l₃ : AudioLabel} {s₁ s₂ s₃ : Rsp μ} {calls₁ calls₂ : List (AudioCall μ)}
    (first : Leads mem handle l₁ s₁ calls₁ l₂ s₂) (second : Leads mem handle l₂ s₂ calls₂ l₃ s₃) :
    Leads mem handle l₁ s₁ (calls₁ ++ calls₂) l₃ s₃ := by
  obtain ⟨k₁, h₁⟩ := first
  obtain ⟨k₂, h₂⟩ := second
  refine ⟨k₂ + k₁, fun fuel => ?_⟩
  rw [← Nat.add_assoc, h₁, h₂, List.append_assoc]

theorem Leads.goto {l l' : AudioLabel} {s s' : Rsp μ}
    (h : audioStep mem handle l s = .goto l' s') : Leads mem handle l s [] l' s' := by
  refine ⟨1, fun fuel => ?_⟩
  rw [playAudio, h]
  rfl

theorem Leads.call {l : AudioLabel} {s after : Rsp μ} {label : UInt32}
    (h : audioStep mem handle l s = .call label after) :
    Leads mem handle l s [⟨label, s, after⟩] .l1118 after := by
  refine ⟨1, fun fuel => ?_⟩
  rw [playAudio, h]
  rfl

/-- The microcode exits after these commands, whatever fuel is left. -/
def Exits (mem : RspMemory μ) (handle : UInt32 → Rsp μ → Rsp μ) (label : AudioLabel) (s : Rsp μ)
    (calls : List (AudioCall μ)) (reason : RspExitReason) : Prop :=
  ∃ k, ∀ fuel, playAudio mem handle (fuel + k) label s = ⟨calls, some reason⟩

theorem Exits.now {l : AudioLabel} {s : Rsp μ} {reason : RspExitReason}
    (h : audioStep mem handle l s = .exit reason) : Exits mem handle l s [] reason := by
  refine ⟨1, fun fuel => ?_⟩
  rw [playAudio, h]

theorem Leads.exits {l l' : AudioLabel} {s s' : Rsp μ} {calls calls' : List (AudioCall μ)}
    {reason : RspExitReason} (way : Leads mem handle l s calls l' s')
    (done : Exits mem handle l' s' calls' reason) :
    Exits mem handle l s (calls ++ calls') reason := by
  obtain ⟨k₁, h₁⟩ := way
  obtain ⟨k₂, h₂⟩ := done
  refine ⟨k₂ + k₁, fun fuel => ?_⟩
  rw [← Nat.add_assoc, h₁, h₂]

/-- Every command of the run leaves the loop what it needs, where it was entered as one of `cs`. -/
def Careful (mem : RspMemory μ) (handle : UInt32 → Rsp μ → Rsp μ) (target : UInt32 → UInt32)
    (cs : List AudioCommand) (label : AudioLabel) (s : Rsp μ) : Prop :=
  ∀ fuel, ∀ call ∈ (playAudio mem handle fuel label s).calls,
    EntersCommand target cs call.label call.before → LeavesLoop mem call.before call.after

theorem Careful.later {target : UInt32 → UInt32} {cs : List AudioCommand} {l l' : AudioLabel}
    {s s' : Rsp μ} {calls : List (AudioCall μ)} (careful : Careful mem handle target cs l s)
    (way : Leads mem handle l s calls l' s') : Careful mem handle target cs l' s' := by
  obtain ⟨k, h⟩ := way
  intro fuel call hc
  have all := careful (fuel + k) call
  rw [h] at all
  exact all (List.mem_append_right calls hc)

theorem Careful.called {target : UInt32 → UInt32} {cs : List AudioCommand} {l l' : AudioLabel}
    {s s' : Rsp μ} {calls : List (AudioCall μ)} (careful : Careful mem handle target cs l s)
    (way : Leads mem handle l s calls l' s') {call : AudioCall μ} (hc : call ∈ calls)
    (enters : EntersCommand target cs call.label call.before) : LeavesLoop mem call.before call.after := by
  obtain ⟨k, h⟩ := way
  have all := careful (0 + k) call
  rw [h] at all
  exact all (List.mem_append_left _ hc) enters

/-- How many bytes of the list `L_1150` takes next. -/
def batchBytes (left : UInt32) : UInt32 := if rspSigned (left - 0x140) ≤ 0 then left else 0x140

/-- The machine `L_1150` returns with. -/
def fetched (mem : RspMemory μ) (s : Rsp μ) : Rsp μ :=
  { s with
    r1 := 0x380, r2 := s.r28, r3 := batchBytes s.r27 - 1, r4 := 0, r5 := s.r31, r29 := 0x380,
    r30 := batchBytes s.r27, r31 := 0x1178, dmaMemAddress := 0x380, dmaDramAddress := s.r28,
    jumpTarget := s.r31
    machine := mem.dmaRead s.machine 0x380 s.r28 (batchBytes s.r27 - 1) }

theorem jump_1178 {s : Rsp μ} (h : s.jumpTarget = 0x1178) :
    audioStep mem handle .doIndirectJump s = .goto .l1178 s := by
  change doIndirectJump s = _
  unfold doIndirectJump
  rw [h]
  exact if_pos (by decide)

theorem jump_1130 {s : Rsp μ} (h : s.jumpTarget = 0x1130) :
    audioStep mem handle .doIndirectJump s = .goto .l1130 s := by
  change doIndirectJump s = _
  unfold doIndirectJump
  rw [h, if_neg (by decide)]
  exact if_pos (by decide)

theorem jump_10C0 {s : Rsp μ} (h : s.jumpTarget = 0x10C0) :
    audioStep mem handle .doIndirectJump s = .goto .l10C0 s := by
  change doIndirectJump s = _
  unfold doIndirectJump
  rw [h, if_neg (by decide), if_neg (by decide), if_neg (by decide)]
  exact if_pos (by decide)

/-- `L_1150` to its jump back, for either size of batch. -/
theorem fetch_leads (s : Rsp μ) :
    Leads mem handle .l1150 s [] .doIndirectJump (fetched mem s) := by
  have sized : Leads mem handle .l1150 s [] .l116C
      { s with
        r1 := 0x380, r2 := s.r28, r3 := batchBytes s.r27, r4 := s.r27 - 0x140, r5 := s.r31 } := by
    refine Leads.goto ?_
    by_cases h : rspSigned (s.r27 - 0x140) ≤ 0
    · simp [audioStep, batchBytes, h]
    · simp [audioStep, batchBytes, h]
  refine sized.trans ((Leads.goto rfl).trans ((Leads.goto rfl).trans ((Leads.goto rfl).trans ?_)))
  refine (Leads.goto (jump_1178 rfl)).trans (Leads.goto ?_)
  simp [audioStep, fetched]

/-- Stores to the segment table and the parameters leave the batch, the jump table and RDRAM. -/
structure ReadsAlike (mem : RspMemory μ) (m m' : μ) : Prop where
  batch : ∀ a : UInt32, 0x380 ≤ a.toNat → a.toNat + 4 ≤ 0x1000 → mem.loadW m' a = mem.loadW m a
  table : ∀ a : UInt32, a.toNat + 2 ≤ 0x320 → mem.loadH m' a = mem.loadH m a
  dram : ∀ a : UInt32, mem.dramW m' a = mem.dramW m a

theorem stored_readsAlike (doc : mem.Documented) (m : μ) {cell : UInt32} (value : UInt32)
    (low' : 0x320 ≤ cell.toNat) (high' : cell.toNat + 4 ≤ 0x380) :
    ReadsAlike mem m (mem.storeW m cell value) := by
  constructor
  · intro a low high
    exact doc.stored_word m cell value a (by omega) high
  · intro a low
    exact doc.stored_below m cell value a (by omega) (by omega)
  · exact doc.stored_dram m cell value

theorem half_readsAlike (doc : mem.Documented) (m : μ) {cell : UInt32} (value : UInt32)
    (low' : 0x320 ≤ cell.toNat) (high' : cell.toNat + 2 ≤ 0x380) :
    ReadsAlike mem m (mem.storeH m cell value) := by
  constructor
  · intro a low high
    exact doc.half_word m cell value a (by omega) high
  · intro a low
    exact doc.half_below m cell value a (by omega) (by omega)
  · exact doc.half_dram m cell value

theorem ReadsAlike.trans {m₁ m₂ m₃ : μ} (first : ReadsAlike mem m₁ m₂)
    (second : ReadsAlike mem m₂ m₃) : ReadsAlike mem m₁ m₃ := by
  constructor
  · intro a low high
    rw [second.batch a low high, first.batch a low high]
  · intro a low
    rw [second.table a low, first.table a low]
  · intro a
    rw [second.dram, first.dram]

/-- The registers a batch goes by. -/
def SameLoop (s s' : Rsp μ) : Prop :=
  s'.r23 = s.r23 ∧ s'.r24 = s.r24 ∧ s'.r27 = s.r27 ∧ s'.r28 = s.r28 ∧ s'.r29 = s.r29 ∧
    s'.r30 = s.r30

/-- The loop that clears the segment table stores to its first word only. -/
theorem clear_leads (doc : mem.Documented) (n : Nat) (small : n < 2 ^ 31) {s : Rsp μ}
    (r1 : s.r1 = 0 + 0x320) (r2 : s.r2.toNat = n) :
    ∃ s', Leads mem handle .l10C8 s [] .l10D4 s' ∧ SameLoop s s' ∧
      ReadsAlike mem s.machine s'.machine := by
  have address : (0 + s.r1).toNat = 0x320 := by
    rw [r1]
    rfl
  have cleared := stored_readsAlike doc s.machine 0 (by omega : 0x320 ≤ (0 + s.r1).toNat) (by omega)
  induction n generalizing s with
  | zero =>
    have stop : ¬ rspSigned s.r2 > 0 := by
      rw [rspSigned_pos_iff]
      omega
    refine ⟨_, Leads.goto (if_neg stop), ?_, cleared⟩
    exact ⟨rfl, rfl, rfl, rfl, rfl, rfl⟩
  | succ n ih =>
    have more : rspSigned s.r2 > 0 := by
      rw [rspSigned_pos_iff]
      omega
    have one : UInt32.toNat 0x1 = 1 := rfl
    have less : (s.r2 - 0x1).toNat = n := by
      rw [UInt32.toNat_sub]
      omega
    have again := @ih (by omega)
      { s with machine := mem.storeW s.machine (0 + s.r1) 0, r2 := s.r2 - 0x1 } r1 less
    have next : ReadsAlike mem (mem.storeW s.machine (0 + s.r1) 0)
        (mem.storeW (mem.storeW s.machine (0 + s.r1) 0) (0 + s.r1) 0) :=
      stored_readsAlike doc _ 0 (by omega) (by omega)
    obtain ⟨s', way, same, alike⟩ := again address next
    have once : Leads mem handle .l10C8 s [] .l10C8
        { s with machine := mem.storeW s.machine (0 + s.r1) 0, r2 := s.r2 - 0x1 } :=
      Leads.goto (if_pos more)
    exact ⟨s', once.trans way, same, cleared.trans alike⟩

/-- The command loop stands before these commands, the first of them already in DMEM. -/
structure Ready (mem : RspMemory μ) (target : UInt32 → UInt32) (s : Rsp μ)
    (batch rest : List AudioCommand) : Prop where
  inDmem : HoldsAt (mem.loadW s.machine) s.r29 batch
  inList : HoldsAt (mem.dramW s.machine) s.r28 (batch ++ rest)
  left : s.r27.toNat = 8 * (batch ++ rest).length
  inBatch : s.r30.toNat = 8 * batch.length
  inside : s.r28.toNat % 2 ^ 24 + 8 * (batch ++ rest).length ≤ 2 ^ 24
  aligned : s.r28.toNat % 8 = 0
  table : ∀ word, imemAddress (mem.loadH s.machine (tableEntry word)) = target word
  r23 : s.r23 = 0xF90
  r24 : s.r24 = 0x360
  place : ∀ i < s.r30, 0x380 ≤ (s.r29 + i).toNat ∧ (s.r29 + i).toNat + 4 ≤ 0x1000

theorem Ready.small {target : UInt32 → UInt32} {s : Rsp μ} {batch rest : List AudioCommand}
    (ready : Ready mem target s batch rest) : 8 * (batch ++ rest).length < 2 ^ 31 := by
  have inside := ready.inside
  omega

/-- The machine `L_10E4` jumps with. -/
def loaded (mem : RspMemory μ) (s : Rsp μ) : Rsp μ :=
  let word := mem.loadW s.machine (0 + s.r29)
  let target := mem.loadH s.machine (tableEntry word)
  { s with
    r1 := (word >>> 23) &&& 0xFE, r2 := target, r25 := mem.loadW s.machine (0x4 + s.r29),
    r26 := word, r27 := s.r27 - 0x8, r28 := s.r28 + 0x8, r29 := s.r29 + 0x8, r30 := s.r30 - 0x8,
    jumpTarget := target }

theorem load_leads (s : Rsp μ) :
    Leads mem handle .l10E4 s [] .doIndirectJump (loaded mem s) :=
  Leads.goto rfl

/-- `L_10E4` takes the next command of the batch and leaves the rest of it. -/
theorem loaded_ready {target : UInt32 → UInt32} {s : Rsp μ} {c : AudioCommand}
    {batch rest : List AudioCommand} (ready : Ready mem target s (c :: batch) rest) :
    (loaded mem s).r26 = c.1 ∧ (loaded mem s).r25 = c.2 ∧
      imemAddress (loaded mem s).jumpTarget = target c.1 ∧
      Ready mem target (loaded mem s) batch rest := by
  have eight : UInt32.toNat 0x8 = 8 := rfl
  obtain ⟨first, second, after⟩ := ready.inDmem
  obtain ⟨-, -, list⟩ := ready.inList
  have left := ready.left
  have inBatch := ready.inBatch
  have inside := ready.inside
  simp only [List.cons_append, List.length_cons] at left inBatch inside
  have word : (loaded mem s).r26 = c.1 := by
    rw [← first, ← UInt32.zero_add s.r29]
    rfl
  have next : (loaded mem s).r25 = c.2 := by
    rw [← second, UInt32.add_comm]
    rfl
  have r27 : (loaded mem s).r27.toNat = 8 * (batch ++ rest).length := by
    change (s.r27 - 0x8).toNat = _
    rw [UInt32.toNat_sub]
    omega
  have r28 : (loaded mem s).r28.toNat = (s.r28.toNat + 8) % 2 ^ 32 := UInt32.toNat_add _ _
  have r30 : (loaded mem s).r30.toNat = 8 * batch.length := by
    rw [List.length_append] at inside
    change (s.r30 - 0x8).toNat = _
    rw [UInt32.toNat_sub]
    omega
  refine ⟨word, next, ?_, after, list, r27, r30, ?_, ?_, ready.table, ready.r23, ready.r24, ?_⟩
  · rw [← word]
    exact ready.table _
  · have wrapped : (s.r28.toNat + 8) % 2 ^ 32 % 2 ^ 24 = (s.r28.toNat + 8) % 2 ^ 24 := by omega
    have next : (s.r28.toNat + 8) % 2 ^ 24 ≤ s.r28.toNat % 2 ^ 24 + 8 := by omega
    rw [r28, wrapped]
    omega
  · have aligned := ready.aligned
    rw [r28]
    omega
  · intro i hi
    rw [UInt32.lt_iff_toNat_lt, r30] at hi
    have here := ready.place (0x8 + i) (by rw [UInt32.lt_iff_toNat_lt, UInt32.toNat_add]; omega)
    rwa [← UInt32.add_assoc] at here

theorem jump_1118 {s : Rsp μ} (h : imemAddress s.jumpTarget = 0x1118) :
    audioStep mem handle .doIndirectJump s = .goto .l1118 s := by
  change doIndirectJump s = _
  unfold doIndirectJump
  rw [h, if_neg (by decide), if_neg (by decide)]
  exact if_pos rfl

/-- The labels `do_indirect_jump` has for the command loop itself. -/
def loopLabels : List UInt32 := [0x1178, 0x1130, 0x10C0]

theorem jump_command {s : Rsp μ} (h : imemAddress s.jumpTarget ∈ commandLabels)
    (other : imemAddress s.jumpTarget ≠ 0x1118) (own : imemAddress s.jumpTarget ∉ loopLabels) :
    audioStep mem handle .doIndirectJump s =
      .goto (.command (imemAddress s.jumpTarget)) s := by
  simp only [loopLabels, List.mem_cons, List.not_mem_nil, or_false, not_or] at own
  change doIndirectJump s = _
  unfold doIndirectJump
  rw [if_neg own.1, if_neg own.2.1, if_neg other, if_neg own.2.2]
  exact if_pos h

theorem jump_unhandled {s : Rsp μ} (h : imemAddress s.jumpTarget ∉ commandLabels)
    (other : imemAddress s.jumpTarget ≠ 0x1118) (own : imemAddress s.jumpTarget ∉ loopLabels) :
    audioStep mem handle .doIndirectJump s = .exit .unhandledJumpTarget := by
  simp only [loopLabels, List.mem_cons, List.not_mem_nil, or_false, not_or] at own
  change doIndirectJump s = _
  unfold doIndirectJump
  rw [if_neg own.1, if_neg own.2.1, if_neg other, if_neg own.2.2]
  exact if_neg h

theorem LeavesLoop.ready {target : UInt32 → UInt32} {s after : Rsp μ}
    {batch rest : List AudioCommand} (leaves : LeavesLoop mem s after)
    (ready : Ready mem target s batch rest) : Ready mem target after batch rest := by
  have small := ready.small
  have part : 8 * batch.length ≤ 8 * (batch ++ rest).length := by
    rw [List.length_append]
    omega
  constructor
  · rw [leaves.r29]
    refine ready.inDmem.copy (by omega) (fun i _ inside => leaves.batch i ?_)
    rw [UInt32.lt_iff_toNat_lt, ready.inBatch]
    omega
  · rw [leaves.r28]
    refine ready.inList.copy (by omega) (fun i _ inside => leaves.list i ?_)
    rw [UInt32.lt_iff_toNat_lt, ready.left]
    omega
  · rw [leaves.r27, ready.left]
  · rw [leaves.r30, ready.inBatch]
  · rw [leaves.r28]
    exact ready.inside
  · rw [leaves.r28]
    exact ready.aligned
  · intro word
    rw [leaves.table, ready.table]
  · rw [leaves.r23]
    exact ready.r23
  · rw [leaves.r24]
    exact ready.r24
  · rw [leaves.r29, leaves.r30]
    exact ready.place

theorem batchBytes_toNat {left : UInt32} {n : Nat} (h : left.toNat = 8 * n)
    (small : 8 * n < 2 ^ 31) : (batchBytes left).toNat = 8 * min 40 n := by
  have size : UInt32.toNat 0x140 = 0x140 := rfl
  unfold batchBytes
  by_cases fits : left.toNat ≤ 0x140
  · have short : rspSigned (left - 0x140) ≤ 0 := by
      rw [rspSigned_nonpos_iff, UInt32.toNat_sub]
      omega
    rw [if_pos short]
    omega
  · have long : ¬ rspSigned (left - 0x140) ≤ 0 := by
      rw [rspSigned_nonpos_iff, UInt32.toNat_sub]
      omega
    rw [if_neg long]
    omega

/-- A fetch brings up to forty commands into DMEM. -/
theorem fetched_ready (doc : mem.Documented) {target : UInt32 → UInt32} {s : Rsp μ}
    {cs : List AudioCommand} (some : cs ≠ []) (ready : Ready mem target s [] cs) :
    Ready mem target (fetched mem s) (cs.take 40) (cs.drop 40) := by
  have list := ready.inList
  have left := ready.left
  have small := ready.small
  have inside := ready.inside
  simp only [List.nil_append] at list left small inside
  have length := List.length_pos_of_ne_nil some
  have bytes := batchBytes_toNat left small
  have one : UInt32.toNat 1 = 1 := rfl
  have buffer : UInt32.toNat 0x380 = 0x380 := rfl
  have last : (batchBytes s.r27 - 1).toNat = 8 * min 40 cs.length - 1 := by
    rw [UInt32.toNat_sub]
    omega
  have taken : (cs.take 40).length = min 40 cs.length := List.length_take
  constructor
  · refine (list.take 40).copy (by omega) (fun i word inside => ?_)
    exact doc.copied s.machine 0x380 s.r28 _ i ready.aligned (by omega) (by omega) (by omega) word
      (by omega)
  · rw [List.take_append_drop]
    refine list.copy (by omega) (fun i _ _ => ?_)
    exact doc.read_dram s.machine 0x380 s.r28 _ (s.r28 + i)
  · rw [List.take_append_drop]
    exact left
  · rw [taken]
    exact bytes
  · rw [List.take_append_drop]
    exact inside
  · exact ready.aligned
  · intro word
    have low := tableEntry_low word
    have table := ready.table word
    rw [← doc.below s.machine 0x380 s.r28 (batchBytes s.r27 - 1) (tableEntry word) (by omega)
      (by omega)] at table
    exact table
  · exact ready.r23
  · exact ready.r24
  · intro i hi
    rw [UInt32.lt_iff_toNat_lt] at hi
    have address : ((fetched mem s).r29 + i).toNat = 0x380 + i.toNat := by
      have room : i.toNat < (batchBytes s.r27).toNat := hi
      change (0x380 + i : UInt32).toNat = _
      rw [UInt32.toNat_add]
      omega
    have room : i.toNat < (batchBytes s.r27).toNat := hi
    omega

theorem ReadsAlike.ready {target : UInt32 → UInt32} {s s' : Rsp μ} {batch rest : List AudioCommand}
    (alike : ReadsAlike mem s.machine s'.machine) (same : SameLoop s s')
    (ready : Ready mem target s batch rest) : Ready mem target s' batch rest := by
  obtain ⟨r23, r24, r27, r28, r29, r30⟩ := same
  have small := ready.small
  have inBatch := ready.inBatch
  constructor
  · rw [r29]
    refine ready.inDmem.copy (by rw [List.length_append] at small; omega) (fun i _ inside => ?_)
    obtain ⟨low, high⟩ := ready.place i (by rw [UInt32.lt_iff_toNat_lt]; omega)
    exact alike.batch _ low high
  · rw [r28]
    exact ready.inList.copy (by omega) (fun i _ _ => alike.dram _)
  · rw [r27, ready.left]
  · rw [r30, ready.inBatch]
  · rw [r28]
    exact ready.inside
  · rw [r28]
    exact ready.aligned
  · intro word
    rw [alike.table _ (tableEntry_low word), ready.table]
  · rw [r23, ready.r23]
  · rw [r24, ready.r24]
  · rw [r29, r30]
    exact ready.place

/-- The list taken one command after the other, each to its label in the jump table. -/
def interpretList (target : UInt32 → UInt32) :
    List AudioCommand → List (UInt32 × AudioCommand) × RspExitReason
  | [] => ([], .broke)
  | c :: cs =>
    if target c.1 = 0x1118 then interpretList target cs
    else if target c.1 ∈ commandLabels then
      ((target c.1, c) :: (interpretList target cs).1, (interpretList target cs).2)
    else ([], .unhandledJumpTarget)

def AudioCall.words (call : AudioCall μ) : UInt32 × AudioCommand :=
  (call.label, call.before.r26, call.before.r25)

/-- The microcode exits as the list says, with the list's commands, which leave the loop alone. -/
def Interprets (mem : RspMemory μ) (handle : UInt32 → Rsp μ → Rsp μ) (target : UInt32 → UInt32)
    (label : AudioLabel) (s : Rsp μ) (cs : List AudioCommand) : Prop :=
  ∃ calls, Exits mem handle label s calls (interpretList target cs).2 ∧
    calls.map AudioCall.words = (interpretList target cs).1 ∧
    ∀ call ∈ calls, LeavesLoop mem call.before call.after

theorem Leads.interprets {target : UInt32 → UInt32} {l l' : AudioLabel} {s s' : Rsp μ}
    {cs : List AudioCommand} (way : Leads mem handle l s [] l' s')
    (h : Interprets mem handle target l' s' cs) : Interprets mem handle target l s cs := by
  obtain ⟨calls, exits, words, leave⟩ := h
  exact ⟨calls, way.exits exits, words, leave⟩

/-- One command of the batch, where the rest of the list is interpreted from `L_1118`. -/
theorem command_interprets {target : UInt32 → UInt32} {s : Rsp μ} {c : AudioCommand}
    {batch rest cs : List AudioCommand} (own : target c.1 ∉ loopLabels) (listed : c ∈ cs)
    (ready : Ready mem target s (c :: batch) rest) (careful : Careful mem handle target cs .l10E4 s)
    (later : ∀ s' : Rsp μ, Ready mem target s' batch rest → Careful mem handle target cs .l1118 s' →
      Interprets mem handle target .l1118 s' (batch ++ rest)) :
    Interprets mem handle target .l10E4 s (c :: batch ++ rest) := by
  obtain ⟨r26, r25, jump, ready'⟩ := loaded_ready ready
  have way : Leads mem handle .l10E4 s [] .doIndirectJump (loaded mem s) := load_leads s
  generalize loaded mem s = s' at r26 r25 jump ready' way
  rw [← jump] at own
  have careful' := careful.later way
  refine way.interprets ?_
  unfold Interprets
  rw [List.cons_append, interpretList, ← jump]
  by_cases noop : imemAddress s'.jumpTarget = 0x1118
  · rw [if_pos noop]
    have skip : Leads mem handle .doIndirectJump s' [] .l1118 s' := Leads.goto (jump_1118 noop)
    exact skip.interprets (later s' ready' (careful'.later skip))
  rw [if_neg noop]
  by_cases known : imemAddress s'.jumpTarget ∈ commandLabels
  · rw [if_pos known]
    have enter : Leads mem handle .doIndirectJump s' [] (.command (imemAddress s'.jumpTarget)) s' :=
      Leads.goto (jump_command known noop own)
    have done : Leads mem handle .doIndirectJump s'
        [⟨imemAddress s'.jumpTarget, s', handle (imemAddress s'.jumpTarget) s'⟩] .l1118
        (handle (imemAddress s'.jumpTarget) s') := enter.trans (Leads.call rfl)
    have enters : EntersCommand target cs (imemAddress s'.jumpTarget) s' := by
      refine ⟨?_, ?_, known, ready'.r23, ready'.r24, ready'.place⟩
      · rw [r26, r25]
        exact listed
      · rw [r26, jump]
    have leaves := careful'.called done (List.mem_singleton_self _) enters
    obtain ⟨calls, exits, words, leave⟩ := later _ (leaves.ready ready') (careful'.later done)
    refine ⟨_, done.exits exits, ?_, ?_⟩
    · rw [List.singleton_append, List.map_cons, words]
      simp only [AudioCall.words, r26, r25]
    · exact List.forall_mem_cons.mpr ⟨leaves, leave⟩
  · rw [if_neg known]
    exact ⟨[], Exits.now (jump_unhandled known noop own), rfl, fun _ h => absurd h List.not_mem_nil⟩

/-- From a batch just fetched, where shorter lists are interpreted from `L_1118`. -/
theorem batch_interprets {target : UInt32 → UInt32} {s : Rsp μ} {cs all : List AudioCommand}
    (some : cs ≠ []) (own : ∀ c ∈ cs, c ∈ all ∧ target c.1 ∉ loopLabels) (r29 : s.r29 = 0x380)
    (ready : Ready mem target s (cs.take 40) (cs.drop 40))
    (careful : Careful mem handle target all .l10D4 s)
    (later : ∀ (s' : Rsp μ) (batch rest : List AudioCommand), (batch ++ rest) <:+ cs →
      (batch ++ rest).length < cs.length → Ready mem target s' batch rest →
      Careful mem handle target all .l1118 s' → Interprets mem handle target .l1118 s' (batch ++ rest)) :
    Interprets mem handle target .l10D4 s cs := by
  have way : Leads mem handle .l10D4 s [] .l10E4 { s with r2 := 0, r29 := 0 + 0x380 } :=
    Leads.goto rfl
  have ready' : Ready mem target { s with r2 := 0, r29 := 0 + 0x380 } (cs.take 40) (cs.drop 40) := by
    have same : (0 + 0x380 : UInt32) = s.r29 := by
      rw [r29]
      rfl
    rw [same]
    exact ⟨ready.inDmem, ready.inList, ready.left, ready.inBatch, ready.inside, ready.aligned,
      ready.table, ready.r23, ready.r24, ready.place⟩
  refine way.interprets ?_
  cases cs with
  | nil => exact absurd rfl some
  | cons c cs =>
    have whole : (c :: cs.take 39) ++ cs.drop 39 = c :: cs := by
      rw [List.cons_append, List.take_append_drop]
    have smaller : cs.take 39 ++ cs.drop 39 = cs := List.take_append_drop 39 cs
    rw [← whole]
    obtain ⟨listed, apart⟩ := own c List.mem_cons_self
    refine command_interprets apart listed ready' (careful.later way) ?_
    intro s' ready'' careful''
    refine later s' _ _ ?_ ?_ ready'' careful''
    · rw [smaller]
      exact List.suffix_cons c cs
    · rw [smaller, List.length_cons]
      exact Nat.lt_succ_self _

/-- The command loop interprets the rest of the list, over as many fetches as it takes. -/
theorem loop_interprets (doc : mem.Documented) {target : UInt32 → UInt32} (n : Nat) {s : Rsp μ}
    {batch rest all : List AudioCommand} (length : (batch ++ rest).length = n)
    (own : ∀ c ∈ batch ++ rest, c ∈ all ∧ target c.1 ∉ loopLabels)
    (ready : Ready mem target s batch rest) (careful : Careful mem handle target all .l1118 s) :
    Interprets mem handle target .l1118 s (batch ++ rest) := by
  induction n using Nat.strongRecOn generalizing s batch rest with
  | ind n ih =>
    have small := ready.small
    have left := ready.left
    have inBatch := ready.inBatch
    cases batch with
    | cons c batch =>
      have more : rspSigned s.r30 > 0 := by
        rw [rspSigned_pos_iff, inBatch, List.length_cons]
        simp only [List.cons_append, List.length_cons, List.length_append] at small
        omega
      have way : Leads mem handle .l1118 s [] .l10E4 s := Leads.goto (if_pos more)
      refine way.interprets ?_
      obtain ⟨listed, apart⟩ := own c List.mem_cons_self
      refine command_interprets apart listed ready (careful.later way) ?_
      intro s' ready' careful'
      refine ih _ ?_ rfl (fun d hd => own d (List.mem_cons_of_mem c hd)) ready' careful'
      rw [← length, List.cons_append, List.length_cons]
      exact Nat.lt_succ_self _
    | nil =>
      rw [List.nil_append] at length own small left ⊢
      have empty : ¬ rspSigned s.r30 > 0 := by
        rw [rspSigned_pos_iff, inBatch, List.length_nil]
        omega
      by_cases done : rest = []
      · subst done
        have stop : rspSigned s.r27 ≤ 0 := by
          rw [rspSigned_nonpos_iff, left, List.length_nil]
          omega
        have way : Leads mem handle .l1118 s [] .l1138 s :=
          Leads.goto ((if_neg empty).trans (if_pos stop))
        exact way.interprets ⟨[], Exits.now rfl, rfl, fun _ h => absurd h List.not_mem_nil⟩
      · have some := List.length_pos_of_ne_nil done
        have go : ¬ rspSigned s.r27 ≤ 0 := by
          rw [rspSigned_nonpos_iff, left]
          omega
        have again : Leads mem handle .l1118 s [] .l1150 { s with r31 := 0x1130 } :=
          Leads.goto ((if_neg empty).trans (if_neg go))
        have fetch : Leads mem handle .l1150 { s with r31 := 0x1130 } [] .doIndirectJump
            (fetched mem { s with r31 := 0x1130 }) := fetch_leads _
        have back := fetch.trans ((Leads.goto (jump_1130 rfl)).trans (Leads.goto rfl))
        have way := again.trans back
        refine way.interprets (batch_interprets done own rfl ?_ (careful.later way) ?_)
        · refine fetched_ready doc done ?_
          exact ⟨ready.inDmem, ready.inList, ready.left, ready.inBatch, ready.inside, ready.aligned,
            ready.table, ready.r23, ready.r24, ready.place⟩
        · intro s' batch' rest' suffix shorter ready' careful'
          exact ih _ (length ▸ shorter) rfl (fun d hd => own d (suffix.subset hd)) ready' careful'

/-- Where the jump table of the task's data sends a command. -/
def commandTarget (mem : RspMemory μ) (m : μ) (word : UInt32) : UInt32 :=
  imemAddress (mem.loadH m (tableEntry word))

/-- A task of these commands, as the microcode finds it in DMEM and RDRAM. -/
structure AudioTask (mem : RspMemory μ) (m : μ) (cs : List AudioCommand) : Prop where
  some : cs ≠ []
  list : HoldsAt (mem.dramW m) (mem.loadW m 0xFF0) cs
  size : (mem.loadW m 0xFF4).toNat = 8 * cs.length
  aligned : (mem.loadW m 0xFF0).toNat % 8 = 0
  inside : (mem.loadW m 0xFF0).toNat % 2 ^ 24 + 8 * cs.length ≤ 2 ^ 24
  table : ∀ c ∈ cs, commandTarget mem m c.1 ∉ loopLabels

/-- The machine of the first fetch. -/
def entered (mem : RspMemory μ) (m : μ) : Rsp μ :=
  { Rsp.reset m with
    r1 := 0xFC0, r4 := 0 &&& 0x100, r23 := 0 + 0xF90, r24 := 0 + 0x360,
    r27 := mem.loadW m (0x34 + 0xFC0), r28 := mem.loadW m (0x30 + 0xFC0), r31 := 0x10C0 }

theorem entered_ready {m : μ} {cs : List AudioCommand} (task : AudioTask mem m cs) :
    Ready mem (commandTarget mem m) (entered mem m) [] cs := by
  have list : (entered mem m).r28 = mem.loadW m 0xFF0 := rfl
  have size : (entered mem m).r27 = mem.loadW m 0xFF4 := rfl
  refine ⟨trivial, ?_, ?_, rfl, ?_, ?_, fun _ => rfl, rfl, rfl, ?_⟩
  · rw [list]
    exact task.list
  · rw [size]
    exact task.size
  · rw [list]
    exact task.inside
  · rw [list]
    exact task.aligned
  · intro i hi
    exact absurd hi (Nat.not_lt_zero _)

theorem task_interprets (doc : mem.Documented) {m : μ} {cs : List AudioCommand}
    (task : AudioTask mem m cs) (careful : Careful mem handle (commandTarget mem m) cs .entry (Rsp.reset m)) :
    Interprets mem handle (commandTarget mem m) .entry (Rsp.reset m) cs := by
  have idle : (0 &&& 0x1 : UInt32) = 0 := rfl
  have enter : Leads mem handle .entry (Rsp.reset m) [] .l10B4 { entered mem m with r31 := 0 } :=
    Leads.goto (if_pos idle)
  have start : Leads mem handle .l10B4 { entered mem m with r31 := 0 } [] .l1150 (entered mem m) :=
    Leads.goto rfl
  have back : Leads mem handle .l1150 (entered mem m) [] .l10C0 (fetched mem (entered mem m)) :=
    (fetch_leads _).trans (Leads.goto (jump_10C0 rfl))
  have ready := fetched_ready doc task.some (entered_ready task)
  have r29 : (fetched mem (entered mem m)).r29 = 0x380 := rfl
  generalize fetched mem (entered mem m) = s at back ready r29
  have counted : Leads mem handle .l10C0 s [] .l10C8 { s with r2 := 0 + 0xF, r1 := 0 + 0x320 } :=
    Leads.goto rfl
  have loop := @clear_leads μ mem handle doc 15 (by omega)
    { s with r2 := 0 + 0xF, r1 := 0 + 0x320 } rfl rfl
  obtain ⟨s', cleared, same, alike⟩ := loop
  have way := enter.trans (start.trans (back.trans (counted.trans cleared)))
  have same' : SameLoop s s' := same
  have alike' : ReadsAlike mem s.machine s'.machine := alike
  have ready' := alike'.ready same' ready
  refine way.interprets (batch_interprets task.some ?_ ?_ ready' (careful.later way) ?_)
  · intro c hc
    exact ⟨hc, task.table c hc⟩
  · obtain ⟨-, -, -, -, kept, -⟩ := same'
    rw [kept, r29]
  · intro s'' batch rest suffix _ ready'' careful''
    refine loop_interprets doc _ rfl (fun c hc => ?_) ready'' careful''
    have listed := suffix.subset hc
    exact ⟨listed, task.table c listed⟩

end

end Rayman2Recomp
