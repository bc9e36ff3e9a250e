import Rayman2Recomp.CNumbers
import Rayman2Recomp.SearchKeys
import Mathlib.Data.List.Induction

open CNumbers Runs

namespace Rayman2Recomp

/-- An address to hold, as its offset, and the value it is held at. -/
structure Frozen where
  offset : Nat
  value : UInt32
  captured : Bool

theorem signed_length (text : Text) : (signed text).2.length ≤ text.length := by
  unfold signed
  split
  next => exact Nat.le_succ _
  next => exact Nat.le_succ _
  next => exact Nat.le_refl _

theorem basePrefix_length (text : Text) : (basePrefix text).2.length ≤ text.length := by
  unfold basePrefix
  split
  next =>
    split
    next =>
      simp only [List.length_cons]
      omega
    next => exact Nat.le_refl _
  next => exact Nat.le_refl _
  next => exact Nat.le_refl _

/-- A number takes at least one character. -/
theorem strtoul_shorter {ulongMax value : Nat} {text rest : Text}
    (found : strtoul ulongMax text = some (value, rest)) : rest.length < text.length := by
  unfold strtoul at found
  simp only at found
  have blanks : (text.dropWhile isSpace).length ≤ text.length := (List.dropWhile_suffix _).length_le
  have unsigned := signed_length (text.dropWhile isSpace)
  have digits := basePrefix_length (signed (text.dropWhile isSpace)).2
  split at found
  next => cases found
  next some_digit =>
    obtain ⟨-, rfl⟩ := Prod.mk.inj (Option.some.inj found)
    generalize basePrefix (signed (text.dropWhile isSpace)).2 = p at some_digit digits ⊢
    have cut : (p.2.takeWhile (isDigit p.1)).length + (p.2.dropWhile (isDigit p.1)).length =
        p.2.length := by
      rw [← List.length_append, List.takeWhile_append_dropWhile]
    have taken := List.length_pos_of_ne_nil some_digit
    omega

/-- The loop over `RAYMAN2_FREEZE`, with room for so many addresses. -/
def parseFreeze (ulongMax : Nat) (room : Nat) (p : Text) : List Frozen :=
  if room = 0 ∨ p = [] then []
  else
    match found : strtoul ulongMax p with
    | none => []
    | some (value, rest) =>
      let address := UInt32.ofNat value
      let next := if rest.head? = some 0x2C then rest.tail else rest
      have shorter : next.length < p.length := by
        have less := strtoul_shorter found
        have cut : next.length ≤ rest.length := by
          dsimp only [next]
          split
          next => rw [List.length_tail]; exact Nat.sub_le _ _
          next => exact Nat.le_refl _
        omega
      if 0x80000000 ≤ address ∧ address < 0x80800000 then
        ⟨(address - 0x80000000).toNat, 0, false⟩ :: parseFreeze ulongMax (room - 1) next
      else parseFreeze ulongMax room next
termination_by p.length

/-- `frozen` as the first poll makes it. -/
def frozenAtStart (ulongMax : Nat) (env : Option Text) : List Frozen :=
  env.elim [] (parseFreeze ulongMax 16)

/-- Byte `i` of a word of the little-endian host. -/
def hostByte (value : UInt32) (i : Nat) : UInt8 := ⟨value.toBitVec.extractLsb' (8 * i) 8⟩

def writeHostWord (ram : HostRam) (offset : Nat) (value : UInt32) : HostRam := fun x =>
  if offset ≤ x ∧ x < offset + 4 then hostByte value (x - offset) else ram x

def freezeEntry (ram : HostRam) (e : Frozen) : HostRam × Frozen :=
  if !e.captured then
    let seen := hostWord ram e.offset
    if seen = 0 ∨ seen = 0xCCCCCCCC then (ram, e)
    else (ram, { e with value := seen, captured := true })
  else (writeHostWord ram e.offset e.value, e)

/-- `poll_freeze` -/
def pollFreeze (ram : HostRam) : List Frozen → HostRam × List Frozen
  | [] => (ram, [])
  | e :: rest =>
    let first := freezeEntry ram e
    let later := pollFreeze first.1 rest
    (later.1, first.2 :: later.2)

/-- A word that is worth holding. -/
def holdable (word : UInt32) : Bool := !(word = 0 ∨ word = 0xCCCCCCCC)

/-- The words of two entries are one word, or have no byte in common. -/
def WordsApart (entries : List Frozen) : Prop :=
  ∀ e ∈ entries, ∀ f ∈ entries,
    e.offset = f.offset ∨ e.offset + 4 ≤ f.offset ∨ f.offset + 4 ≤ e.offset

/-- Entries for one word are in one state. -/
structure FreezeHeld (entries : List Frozen) : Prop where
  apart : WordsApart entries
  agree : ∀ e ∈ entries, ∀ f ∈ entries, e.offset = f.offset → e = f

/-- What a poll makes of an entry from the memory it finds. -/
def Frozen.seen (ram : HostRam) (e : Frozen) : Frozen :=
  if !e.captured && holdable (hostWord ram e.offset) then
    { e with value := hostWord ram e.offset, captured := true }
  else e

section

variable {ram : HostRam} {offset other : Nat} {value : UInt32} {entries : List Frozen} {e : Frozen}

theorem hostWord_bytes (value : UInt32) :
    (hostByte value 0).toUInt32 ||| ((hostByte value 1).toUInt32 <<< 8) |||
      ((hostByte value 2).toUInt32 <<< 16) ||| ((hostByte value 3).toUInt32 <<< 24) = value := by
  apply UInt32.toBitVec_inj.mp
  apply BitVec.eq_of_getLsbD_eq
  intro i inside
  have parts : ∀ n, (hostByte value n).toUInt32.toBitVec =
      (value.toBitVec.extractLsb' (8 * n) 8).setWidth 32 := fun n => rfl
  simp only [UInt32.toBitVec_or, UInt32.toBitVec_shiftLeft, parts, BitVec.getLsbD_or,
    UInt32.toBitVec_ofNat]
  simp
  grind

theorem hostWord_congr {ram' : HostRam} (same : ∀ x, offset ≤ x → x < offset + 4 → ram x = ram' x) :
    hostWord ram offset = hostWord ram' offset := by
  unfold hostWord
  rw [same offset (by omega) (by omega), same (offset + 1) (by omega) (by omega),
    same (offset + 2) (by omega) (by omega), same (offset + 3) (by omega) (by omega)]

theorem writeHostWord_outside {x : Nat} (outside : x < offset ∨ offset + 4 ≤ x) :
    writeHostWord ram offset value x = ram x := if_neg (by omega)

theorem hostWord_write_same : hostWord (writeHostWord ram offset value) offset = value := by
  have byte : ∀ i < 4, writeHostWord ram offset value (offset + i) = hostByte value i := by
    intro i lt
    have inside : offset ≤ offset + i ∧ offset + i < offset + 4 := by omega
    rw [writeHostWord, if_pos inside, Nat.add_sub_cancel_left]
  have first := byte 0 (by decide)
  rw [Nat.add_zero] at first
  unfold hostWord
  rw [first, byte 1 (by decide), byte 2 (by decide), byte 3 (by decide)]
  exact hostWord_bytes value

theorem hostWord_write_apart (apart : other + 4 ≤ offset ∨ offset + 4 ≤ other) :
    hostWord (writeHostWord ram offset value) other = hostWord ram other :=
  hostWord_congr fun x low high => writeHostWord_outside (by omega)

theorem freezeEntry_seen : (freezeEntry ram e).2 = e.seen ram := by
  unfold freezeEntry Frozen.seen holdable
  cases e.captured with
  | true => rfl
  | false =>
    simp only [Bool.not_false, if_true, Bool.true_and]
    by_cases empty : hostWord ram e.offset = 0 ∨ hostWord ram e.offset = 0xCCCCCCCC
    · simp [empty]
    · simp [empty]

theorem freezeEntry_ram :
    (freezeEntry ram e).1 = if e.captured then writeHostWord ram e.offset e.value else ram := by
  unfold freezeEntry
  cases e.captured with
  | true => rfl
  | false =>
    simp only [Bool.not_false, if_true]
    split <;> rfl

theorem FreezeHeld.tail (held : FreezeHeld (e :: entries)) : FreezeHeld entries :=
  ⟨fun a ha b hb => held.apart a (List.mem_cons_of_mem e ha) b (List.mem_cons_of_mem e hb),
    fun a ha b hb => held.agree a (List.mem_cons_of_mem e ha) b (List.mem_cons_of_mem e hb)⟩

/-- The first entry's turn changes nothing of what another finds that has no value yet. -/
theorem seen_freezeEntry (held : FreezeHeld (e :: entries)) {f : Frozen} (member : f ∈ entries) :
    f.seen (freezeEntry ram e).1 = f.seen ram := by
  rw [freezeEntry_ram]
  split
  next captured =>
    unfold Frozen.seen
    cases fresh : f.captured with
    | true => rfl
    | false =>
      have there := List.mem_cons_of_mem e member
      have words := held.apart e List.mem_cons_self f there
      have differ : e.offset ≠ f.offset := by
        intro same
        have agree := held.agree e List.mem_cons_self f there same
        rw [agree, fresh] at captured
        cases captured
      rw [hostWord_write_apart (by omega)]
  next => rfl

theorem pollFreeze_entries (held : FreezeHeld entries) :
    (pollFreeze ram entries).2 = entries.map (Frozen.seen ram) := by
  induction entries generalizing ram with
  | nil => rfl
  | cons e rest ih =>
    rw [pollFreeze, ih held.tail, freezeEntry_seen, List.map_cons]
    exact congrArg (_ :: ·) (List.map_congr_left fun f member => seen_freezeEntry held member)

/-- A word stays what it is while every entry that writes it writes that. -/
theorem pollFreeze_keeps_word (same : hostWord ram offset = value)
    (agree : ∀ e ∈ entries, e.captured = true →
      e.offset = offset ∧ e.value = value ∨ e.offset + 4 ≤ offset ∨ offset + 4 ≤ e.offset) :
    hostWord (pollFreeze ram entries).1 offset = value := by
  induction entries generalizing ram with
  | nil => exact same
  | cons e rest ih =>
    refine ih ?_ fun f member => agree f (List.mem_cons_of_mem e member)
    rw [freezeEntry_ram]
    split
    next captured =>
      rcases agree e List.mem_cons_self captured with ⟨rfl, rfl⟩ | apart
      · exact hostWord_write_same
      · rw [hostWord_write_apart (by omega), same]
    next => exact same

theorem pollFreeze_holds (held : FreezeHeld entries) (member : e ∈ entries)
    (captured : e.captured = true) : hostWord (pollFreeze ram entries).1 e.offset = e.value := by
  induction entries generalizing ram with
  | nil => exact absurd member List.not_mem_nil
  | cons first rest ih =>
    rcases List.mem_cons.mp member with rfl | later
    · change hostWord (pollFreeze (freezeEntry ram e).1 rest).1 e.offset = e.value
      refine pollFreeze_keeps_word ?_ fun f there _ => ?_
      · rw [freezeEntry_ram, if_pos captured, hostWord_write_same]
      · have there := List.mem_cons_of_mem e there
        rcases held.apart f there e List.mem_cons_self with same | apart
        · have agree := held.agree f there e List.mem_cons_self same
          exact Or.inl ⟨same, congrArg Frozen.value agree⟩
        · exact Or.inr (by omega)
    · exact ih held.tail later

theorem pollFreeze_outside {x : Nat}
    (outside : ∀ e ∈ entries, e.captured = true → x < e.offset ∨ e.offset + 4 ≤ x) :
    (pollFreeze ram entries).1 x = ram x := by
  induction entries generalizing ram with
  | nil => rfl
  | cons e rest ih =>
    rw [pollFreeze, ih fun f member => outside f (List.mem_cons_of_mem e member), freezeEntry_ram]
    split
    next captured => exact writeHostWord_outside (outside e List.mem_cons_self captured)
    next => rfl

/-- The first word worth holding that the polls found at an offset. -/
def firstHeld (rams : List HostRam) (offset : Nat) : Option UInt32 :=
  (rams.map fun ram => hostWord ram offset).find? holdable

/-- The entries after polls of the memories the game left. -/
def frozenAfter (entries : List Frozen) (rams : List HostRam) : List Frozen :=
  run (fun entries ram => (pollFreeze ram entries).2) entries rams

/-- An entry as it has to be once those memories were polled. -/
def heldEntry (rams : List HostRam) (e : Frozen) : Frozen :=
  ⟨e.offset, (firstHeld rams e.offset).getD 0, (firstHeld rams e.offset).isSome⟩

theorem firstHeld_snoc (rams : List HostRam) (ram : HostRam) (offset : Nat) :
    firstHeld (rams ++ [ram]) offset = (firstHeld rams offset).or
      (if holdable (hostWord ram offset) then some (hostWord ram offset) else none) := by
  rw [firstHeld, List.map_append, List.find?_append]
  congr 1
  cases fresh : holdable (hostWord ram offset) <;> simp [fresh]

theorem heldEntry_snoc (rams : List HostRam) (ram : HostRam) (e : Frozen) :
    heldEntry (rams ++ [ram]) e = (heldEntry rams e).seen ram := by
  unfold heldEntry Frozen.seen
  rw [firstHeld_snoc]
  cases firstHeld rams e.offset with
  | some value => rfl
  | none => cases fresh : holdable (hostWord ram e.offset) <;> simp

theorem freezeHeld_map (apart : WordsApart entries) (rams : List HostRam) :
    FreezeHeld (entries.map (heldEntry rams)) := by
  constructor
  · intro a ha b hb
    obtain ⟨e, he, rfl⟩ := List.mem_map.mp ha
    obtain ⟨f, hf, rfl⟩ := List.mem_map.mp hb
    exact apart e he f hf
  · intro a ha b hb same
    obtain ⟨e, he, rfl⟩ := List.mem_map.mp ha
    obtain ⟨f, hf, rfl⟩ := List.mem_map.mp hb
    have offsets : e.offset = f.offset := same
    rw [heldEntry, heldEntry, offsets]

theorem frozenAfter_eq (apart : WordsApart entries)
    (fresh : ∀ e ∈ entries, e.captured = false ∧ e.value = 0) (rams : List HostRam) :
    frozenAfter entries rams = entries.map (heldEntry rams) := by
  induction rams using List.reverseRecOn with
  | nil =>
    have start : entries.map (heldEntry []) = entries.map id := by
      refine List.map_congr_left fun e member => ?_
      obtain ⟨unset, zero⟩ := fresh e member
      cases e
      cases unset
      cases zero
      rfl
    rw [start, List.map_id]
    rfl
  | append_singleton rams ram ih =>
    unfold frozenAfter at ih ⊢
    rw [run_snoc, ih, pollFreeze_entries (freezeHeld_map apart rams), List.map_map]
    exact List.map_congr_left fun e _ => (heldEntry_snoc rams ram e).symm

/-- Whatever the game writes between the polls, a poll leaves each word at the first value worth
holding that an earlier poll found there, and every other byte alone. -/
theorem freeze_holds (apart : WordsApart entries)
    (fresh : ∀ e ∈ entries, e.captured = false ∧ e.value = 0) (rams : List HostRam) (ram : HostRam) :
    frozenAfter entries (rams ++ [ram]) = entries.map (heldEntry (rams ++ [ram])) ∧
    (∀ e ∈ entries, hostWord (pollFreeze ram (frozenAfter entries rams)).1 e.offset =
      (firstHeld rams e.offset).getD (hostWord ram e.offset)) ∧
    ∀ x, (∀ e ∈ entries, (firstHeld rams e.offset).isSome → x < e.offset ∨ e.offset + 4 ≤ x) →
      (pollFreeze ram (frozenAfter entries rams)).1 x = ram x := by
  have before := frozenAfter_eq apart fresh rams
  have held := freezeHeld_map apart rams
  refine ⟨frozenAfter_eq apart fresh _, fun e member => ?_, fun x outside => ?_⟩
  · rw [before]
    have there : heldEntry rams e ∈ entries.map (heldEntry rams) := List.mem_map_of_mem member
    cases first : firstHeld rams e.offset with
    | some value =>
      have holds : hostWord (pollFreeze ram (entries.map (heldEntry rams))).1
          (heldEntry rams e).offset = (heldEntry rams e).value :=
        pollFreeze_holds held there (by rw [heldEntry, first]; rfl)
      rw [heldEntry, first] at holds
      exact holds
    | none =>
      refine pollFreeze_keeps_word rfl fun f other captured => ?_
      obtain ⟨f, hf, rfl⟩ := List.mem_map.mp other
      rcases apart f hf e member with same | clear
      · have unset : (heldEntry rams f).captured = false := by
          rw [heldEntry, same, first]
          rfl
        rw [unset] at captured
        cases captured
      · exact Or.inr (by simpa [heldEntry] using clear)
  · rw [before]
    refine pollFreeze_outside fun f there captured => ?_
    obtain ⟨f, hf, rfl⟩ := List.mem_map.mp there
    exact outside f hf captured

theorem parseFreeze_entries (ulongMax : Nat) (room : Nat) (p : Text) :
    (parseFreeze ulongMax room p).length ≤ room ∧
      ∀ e ∈ parseFreeze ulongMax room p,
        (e.captured = false ∧ e.value = 0) ∧ e.offset < kRamSize := by
  fun_induction parseFreeze ulongMax room p with
  | case1 => exact ⟨Nat.zero_le _, fun e member => absurd member List.not_mem_nil⟩
  | case2 => exact ⟨Nat.zero_le _, fun e member => absurd member List.not_mem_nil⟩
  | case3 room p more value rest found address next shorter inside ih =>
    have some_room : room ≠ 0 := fun none_left => more (Or.inl none_left)
    refine ⟨?_, fun e member => ?_⟩
    · rw [List.length_cons]
      omega
    · rcases List.mem_cons.mp member with rfl | later
      · refine ⟨⟨rfl, rfl⟩, ?_⟩
        have difference := UInt32.toNat_sub_of_le address 0x80000000 inside.1
        have low := UInt32.le_iff_toNat_le.mp inside.1
        have high := UInt32.lt_iff_toNat_lt.mp inside.2
        have bounds : (0x80000000 : UInt32).toNat = 0x80000000 ∧
            (0x80800000 : UInt32).toNat = 0x80800000 := ⟨rfl, rfl⟩
        change (address - 0x80000000).toNat < 0x800000
        omega
      · exact ih.2 e later
  | case4 room p more value rest found address next shorter outside ih => exact ih

theorem frozenAtStart_entries (ulongMax : Nat) (env : Option Text) :
    (frozenAtStart ulongMax env).length ≤ 16 ∧
      ∀ e ∈ frozenAtStart ulongMax env,
        (e.captured = false ∧ e.value = 0) ∧ e.offset < kRamSize := by
  cases env with
  | none => exact ⟨Nat.zero_le _, fun e member => absurd member List.not_mem_nil⟩
  | some text => exact parseFreeze_entries ulongMax 16 text

theorem wordsApart_of_aligned (aligned : ∀ e ∈ entries, e.offset % 4 = 0) : WordsApart entries := by
  intro e he f hf
  have first := aligned e he
  have second := aligned f hf
  omega

/-- Whatever stands in the environment, with word addresses at most sixteen words of RDRAM are held,
each at the first value worth holding that a poll found there. -/
theorem environment_freeze_holds (ulongMax : Nat) (env : Option Text)
    (aligned : ∀ e ∈ frozenAtStart ulongMax env, e.offset % 4 = 0) (rams : List HostRam)
    (ram : HostRam) :
    let entries := frozenAtStart ulongMax env
    entries.length ≤ 16 ∧ (∀ e ∈ entries, e.offset + 4 ≤ kRamSize) ∧
    frozenAfter entries (rams ++ [ram]) = entries.map (heldEntry (rams ++ [ram])) ∧
    (∀ e ∈ entries, hostWord (pollFreeze ram (frozenAfter entries rams)).1 e.offset =
      (firstHeld rams e.offset).getD (hostWord ram e.offset)) ∧
    ∀ x, (∀ e ∈ entries, (firstHeld rams e.offset).isSome → x < e.offset ∨ e.offset + 4 ≤ x) →
      (pollFreeze ram (frozenAfter entries rams)).1 x = ram x := by
  intro entries
  obtain ⟨few, each⟩ := frozenAtStart_entries ulongMax env
  refine ⟨few, fun e member => ?_, freeze_holds (wordsApart_of_aligned aligned)
    (fun e member => (each e member).1) rams ram⟩
  have word := aligned e member
  have inside := (each e member).2
  have size : kRamSize = 4 * 0x200000 := rfl
  omega

/-- `RAYMAN2_FREEZE=0x80000100` -/
def freezeEnv : Text := charBytes "0x80000100".toList

theorem frozen_freezeEnv : frozenAtStart (2 ^ 64 - 1) (some freezeEnv) = [⟨0x100, 0, false⟩] := by
  have read : strtoul (2 ^ 64 - 1) freezeEnv = some (0x80000100, []) := by decide +kernel
  have some_text : freezeEnv ≠ [] := by decide +kernel
  rw [frozenAtStart, Option.elim_some, parseFreeze, if_neg (by simp [some_text])]
  split
  next missing =>
    rw [read] at missing
    cases missing
  next value rest found =>
    rw [read] at found
    obtain ⟨rfl, rfl⟩ := Prod.mk.inj (Option.some.inj found)
    rw [if_pos (by decide), parseFreeze]
    rfl

theorem aligned_freezeEnv :
    ∀ e ∈ frozenAtStart (2 ^ 64 - 1) (some freezeEnv), e.offset % 4 = 0 := by
  intro e member
  rw [frozen_freezeEnv, List.mem_singleton] at member
  subst e
  decide

/-- The game clears a word that held sevens, and the poll puts them back. -/
theorem environment_freeze_restores :
    hostWord (pollFreeze (fun _ => 0)
      (frozenAfter (frozenAtStart (2 ^ 64 - 1) (some freezeEnv)) [fun _ => 7])).1 0x100 =
        0x07070707 := by
  have holds := (environment_freeze_holds (2 ^ 64 - 1) (some freezeEnv) aligned_freezeEnv
    [fun _ => 7] fun _ => 0).2.2.2.1 ⟨0x100, 0, false⟩
      (by rw [frozen_freezeEnv]; exact List.mem_singleton_self _)
  exact holds.trans (by decide)

/-- One frame of `update_gfx`: the freeze, and then the search, over the memory the game left. -/
structure ToolFrame where
  ram : HostRam
  down : Option Keyboard

structure MemoryTools where
  frozen : List Frozen
  keyed : KeyedSearch

def ToolFrame.poll (f : ToolFrame) (ram : HostRam) : SearchPoll :=
  f.down.elim .away fun down => .keys down ram

def toolFrame (s : MemoryTools) (f : ToolFrame) : MemoryTools :=
  let held := pollFreeze f.ram s.frozen
  ⟨held.2, memorySearchPoll s.keyed (f.poll held.1)⟩

/-- The polls of the search over the frames, each of the memory the freeze left. -/
def searchPolls (entries : List Frozen) : List ToolFrame → List SearchPoll
  | [] => []
  | f :: rest =>
    f.poll (pollFreeze f.ram entries).1 :: searchPolls (pollFreeze f.ram entries).2 rest

def SearchCall.memory : SearchCall → HostRam
  | start ram => ram
  | narrow n => n.ram

theorem run_toolFrame (s : MemoryTools) (frames : List ToolFrame) :
    (run toolFrame s frames).keyed = run memorySearchPoll s.keyed (searchPolls s.frozen frames) := by
  induction frames generalizing s with
  | nil => rfl
  | cons f rest ih => rw [run_cons, ih, searchPolls, run_cons, toolFrame]

theorem searchPolls_append (before after : List ToolFrame) :
    searchPolls entries (before ++ after) = searchPolls entries before ++
      searchPolls (frozenAfter entries (before.map ToolFrame.ram)) after := by
  induction before generalizing entries with
  | nil => rfl
  | cons f rest ih => rw [List.cons_append, searchPolls, ih, searchPolls, List.cons_append]; rfl

/-- Once a word is held, every later search finds it at its value. -/
theorem searchPolls_held (apart : WordsApart entries)
    (fresh : ∀ e ∈ entries, e.captured = false ∧ e.value = 0) (member : e ∈ entries)
    {rams : List HostRam} (captured : firstHeld rams e.offset = some value) (frames : List ToolFrame)
    {down : Keyboard} (poll : .keys down ram ∈ searchPolls (frozenAfter entries rams) frames) :
    hostWord ram e.offset = value := by
  induction frames generalizing rams with
  | nil => exact absurd poll List.not_mem_nil
  | cons f rest ih =>
    rcases List.mem_cons.mp poll with here | later
    · have holds := (freeze_holds apart fresh rams f.ram).2.1 e member
      rw [captured, Option.getD_some] at holds
      unfold ToolFrame.poll at here
      cases keys : f.down with
      | none =>
        rw [keys] at here
        cases here
      | some _ =>
        rw [keys] at here
        cases here
        exact holds
    · have still : firstHeld (rams ++ [f.ram]) e.offset = some value := by
        rw [firstHeld_snoc, captured, Option.some_or]
      have next : frozenAfter entries (rams ++ [f.ram]) =
          (pollFreeze f.ram (frozenAfter entries rams)).2 := run_snoc _ _ _ _
      exact ih still (by rw [next]; exact later)

theorem mem_pressesAt {before : List SearchPoll} {p : SearchPoll} {call : SearchCall}
    (made : call ∈ pressesAt before p) : ∃ down, p = .keys down call.memory := by
  cases p with
  | away => cases made
  | keys down ram =>
    obtain ⟨key, -, rfl⟩ := List.mem_map.mp made
    refine ⟨down, ?_⟩
    cases key <;> rfl

/-- The calls of later polls are appended, and each is made on the memory of its poll. -/
theorem presses_append (before after : List SearchPoll) : ∃ more,
    presses (before ++ after) = presses before ++ more ∧
      (∀ call ∈ more, ∃ down, .keys down call.memory ∈ after) ∧
      ∀ first p last, after = first ++ p :: last →
        ∀ call ∈ pressesAt (before ++ first) p, call ∈ more := by
  induction after using List.reverseRecOn with
  | nil =>
    refine ⟨[], by simp, fun call made => absurd made List.not_mem_nil, fun first p last split => ?_⟩
    exact absurd (congrArg List.length split) (by simp)
  | append_singleton after p ih =>
    obtain ⟨more, whole, found, complete⟩ := ih
    refine ⟨more ++ pressesAt (before ++ after) p, ?_, fun call made => ?_,
      fun first q last split call made => ?_⟩
    · rw [← List.append_assoc, presses_snoc, whole, List.append_assoc]
    · rcases List.mem_append.mp made with old | new
      · obtain ⟨down, poll⟩ := found call old
        exact ⟨down, List.mem_append_left _ poll⟩
      · obtain ⟨down, same⟩ := mem_pressesAt new
        exact ⟨down, List.mem_append_right _ (List.mem_singleton.mpr same.symm)⟩
    · rcases List.eq_nil_or_concat last with rfl | ⟨init, end_, rfl⟩
      · obtain ⟨rfl, same⟩ := List.append_inj' split rfl
        obtain rfl := List.singleton_inj.mp same
        exact List.mem_append_right _ made
      · rw [List.concat_eq_append, ← List.cons_append, ← List.append_assoc] at split
        obtain ⟨rfl, -⟩ := List.append_inj' split rfl
        exact List.mem_append_left _ (complete first q init rfl call made)

theorem sinceStart_append (calls more : List SearchCall) {first : HostRam}
    (started : .start first ∈ more) : ∃ last narrowings,
    sinceStart (calls ++ more) = some (last, narrowings) ∧ .start last ∈ more ∧
      ∀ n ∈ narrowings, .narrow n ∈ more := by
  induction more using List.reverseRecOn with
  | nil => exact absurd started List.not_mem_nil
  | append_singleton more call ih =>
    rw [← List.append_assoc, sinceStart_snoc]
    cases call with
    | start last =>
      exact ⟨last, [], rfl, List.mem_append_right _ (List.mem_singleton_self _),
        fun n member => absurd member List.not_mem_nil⟩
    | narrow n =>
      have earlier : .start first ∈ more := by simpa using started
      obtain ⟨last, narrowings, found, there, each⟩ := ih earlier
      refine ⟨last, narrowings ++ [n], by rw [found]; rfl, List.mem_append_left _ there,
        fun m member => ?_⟩
      rcases List.mem_append.mp member with old | new
      · exact List.mem_append_left _ (each m old)
      · rw [List.mem_singleton.mp new]
        exact List.mem_append_right _ (List.mem_singleton_self _)

/-- A word that holds still goes only the way that asks it to. -/
theorem follows_still {narrowings : List Narrowing} (start : hostWord ram offset = value)
    (each : ∀ n ∈ narrowings, hostWord n.ram offset = value) :
    follows ram narrowings offset = true ↔ ∀ n ∈ narrowings, n.direction = .same := by
  induction narrowings generalizing ram with
  | nil => simp [follows]
  | cons n rest ih =>
    have here := each n List.mem_cons_self
    have later := ih here fun m member => each m (List.mem_cons_of_mem n member)
    have keeps : n.direction.keeps (readWord ram offset) (readWord n.ram offset) = true ↔
        n.direction = .same := by
      rw [readWord, readWord, start, here]
      cases n.direction <;> simp [Direction.keeps]
    rw [follows_cons, Bool.and_eq_true, keeps, later, List.forall_mem_cons]

/-- The search was last started on a memory that a frame in the later part left, and so were its
narrowings. -/
theorem started_later {before first last : List ToolFrame} {f : ToolFrame} {down : Keyboard}
    (keys : f.down = some down) (f5 : down .f5 = true)
    (fresh : lastKeys (searchPolls entries (before ++ first)) .f5 = false) :
    ∃ start narrowings,
      sinceStart (presses (searchPolls entries (before ++ (first ++ f :: last)))) =
        some (start, narrowings) ∧
      ∀ ram, ram = start ∨ (∃ n ∈ narrowings, ram = n.ram) → ∃ down, .keys down ram ∈
        searchPolls (frozenAfter entries (before.map ToolFrame.ram)) (first ++ f :: last) := by
  obtain ⟨more, made, found, complete⟩ := presses_append (searchPolls entries before)
    (searchPolls (frozenAfter entries (before.map ToolFrame.ram)) (first ++ f :: last))
  have here := complete _ _ _ (searchPolls_append first (f :: last))
  rw [← searchPolls_append, ToolFrame.poll, keys] at here
  have started := here (SearchKey.call _ .f5) <| by
    refine List.mem_map.mpr ⟨.f5, List.mem_filter.mpr ⟨List.mem_cons_self, ?_⟩, rfl⟩
    rw [f5, fresh]
    rfl
  obtain ⟨start, narrowings, since, starts, narrows⟩ := sinceStart_append
    (presses (searchPolls entries before)) more started
  rw [← made, ← searchPolls_append] at since
  refine ⟨start, narrowings, since, fun ram which => ?_⟩
  rcases which with rfl | ⟨n, member, rfl⟩
  · exact found _ starts
  · exact found _ (narrows n member)

/-- A word that was held before the search was last started is a candidate exactly while every label
since says that it did not change. -/
theorem frozen_word_unchanged (ulongMax : Nat) (env : Option Text)
    (aligned : ∀ e ∈ frozenAtStart ulongMax env, e.offset % 4 = 0) {e : Frozen}
    (member : e ∈ frozenAtStart ulongMax env) {before first last : List ToolFrame} {f : ToolFrame}
    (captured : (firstHeld (before.map ToolFrame.ram) e.offset).isSome) {down : Keyboard}
    (keys : f.down = some down) (f5 : down .f5 = true)
    (fresh : lastKeys (searchPolls (frozenAtStart ulongMax env) (before ++ first)) .f5 = false) :
    ∃ start narrowings,
      sinceStart (presses (searchPolls (frozenAtStart ulongMax env)
        (before ++ (first ++ f :: last)))) = some (start, narrowings) ∧
      (e.offset ∈ (run toolFrame ⟨frozenAtStart ulongMax env, .start⟩
          (before ++ (first ++ f :: last))).keyed.search.candidates ↔
        ∀ n ∈ narrowings, n.direction = .same) := by
  obtain ⟨-, each⟩ := frozenAtStart_entries ulongMax env
  generalize frozenAtStart ulongMax env = entries at aligned member fresh each ⊢
  have apart := wordsApart_of_aligned aligned
  have unset := fun e member => (each e member).1
  obtain ⟨value, held⟩ := Option.isSome_iff_exists.mp captured
  obtain ⟨start, narrowings, since, later⟩ := started_later keys f5 fresh
  refine ⟨start, narrowings, since, ?_⟩
  have still : ∀ ram, ram = start ∨ (∃ n ∈ narrowings, ram = n.ram) →
      hostWord ram e.offset = value := by
    intro ram which
    obtain ⟨down', poll⟩ := later ram which
    exact searchPolls_held apart unset member held _ poll
  have search := run_sinceStart (presses (searchPolls entries (before ++ (first ++ f :: last))))
  rw [since] at search
  have inside : e.offset % 4 = 0 ∧ e.offset < kRamSize := ⟨aligned e member, (each e member).2⟩
  rw [run_toolFrame, (run_presses _).1, search.candidates, List.mem_filter, mem_wordOffsets,
    and_iff_right inside]
  exact follows_still (still start (Or.inl rfl)) fun n here => still n.ram (Or.inr ⟨n, here, rfl⟩)

end

def sevensFrame : ToolFrame := ⟨fun _ => 7, none⟩

def startFrame : ToolFrame := ⟨fun _ => 0, some fun key => key = .f5⟩

theorem frozen_word_survives_start :
    ∃ start narrowings,
      sinceStart (presses (searchPolls (frozenAtStart (2 ^ 64 - 1) (some freezeEnv))
        ([sevensFrame] ++ ([] ++ startFrame :: [])))) = some (start, narrowings) ∧
      (0x100 ∈ (run toolFrame ⟨frozenAtStart (2 ^ 64 - 1) (some freezeEnv), .start⟩
          ([sevensFrame] ++ ([] ++ startFrame :: []))).keyed.search.candidates ↔
        ∀ n ∈ narrowings, n.direction = .same) := by
  have member : (⟨0x100, 0, false⟩ : Frozen) ∈ frozenAtStart (2 ^ 64 - 1) (some freezeEnv) := by
    rw [frozen_freezeEnv]
    exact List.mem_singleton_self _
  have held : (firstHeld ([sevensFrame].map ToolFrame.ram) 0x100).isSome := by decide
  exact frozen_word_unchanged (2 ^ 64 - 1) (some freezeEnv) aligned_freezeEnv member held
    (f := startFrame) rfl rfl rfl

end Rayman2Recomp
