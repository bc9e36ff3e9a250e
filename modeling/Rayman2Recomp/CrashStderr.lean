import Rayman2Recomp.CNumbers
import Rayman2Recomp.DebugReport
import Rayman2Recomp.TextBuffer
import Mathlib.Data.List.DropRight

open CNumbers Disk TextBuffer

namespace Rayman2Recomp

def kCrashText : Nat := 2048

def kIntMax : Nat := 0x7FFFFFFF

/-- What `vsnprintf` returns: the length the message has, or a negative value when no `int` says
that. -/
def vsnprintfResult (message : Bytes) : Int :=
  if message.length ≤ kIntMax then message.length else -1

inductive StderrWrite
  | literal (bytes : Bytes)
  | fromText (count : Nat)

/-- The writes of `crash_line` to the real stderr. -/
def crashWrites (realStderr : Int) (message : Bytes) : List StderrWrite :=
  let n := vsnprintfResult message
  if realStderr ≥ 0 ∧ n > 0 then [.literal (ascii "  "), .fromText n.toNat, .literal (ascii "\n")]
  else []

/-- What is handed over from `text` was stored there, at most the 2047 characters that fit. -/
def ReadsStored (message : Bytes) : StderrWrite → Prop
  | .literal _ => True
  | .fromText count => count ≤ stored kCrashText message ∧ count ≤ 2047

structure LookupHistoryEntry where
  address : UInt32
  repeats : UInt32

def lookupCell (entry : LookupHistoryEntry) : Bytes :=
  ascii "  0x" ++ (upperHex entry.address.toNat).leftpad 8 0x30 ++
    if entry.repeats > 1 then ascii " x" ++ (decimal entry.repeats.toNat).rightpad 6 0x20
    else ascii "        "

/-- Cells gather in `line`, which is passed on every fourth time and at the end. -/
def lookupLoop (count : Nat) : Nat → Bytes → List LookupHistoryEntry → List Bytes
  | _, _, [] => []
  | i, line, entry :: rest =>
    let line := line ++ lookupCell entry
    if i % 4 = 3 ∨ i + 1 = count then
      (ascii "  " ++ line.rdropWhile (· == 0x20)) :: lookupLoop count (i + 1) [] rest
    else lookupLoop count (i + 1) line rest

def lookupAdvice : List Bytes :=
  [ascii "  These are GAME addresses, not native ones: llvm-symbolizer resolves",
    ascii "  the frames further down and knows nothing about these. To name one,",
    ascii "  grep the split disassembly -- `grep -rn \"glabel func_800A6590\" asm/`",
    ascii "  -- or recomp/symbol_addrs.txt, which carries the ones with real names.",
    ascii "  A count means the same address called in a row, collapsed to one entry."]

def reportLookupHistory (sayWhenEmpty : Bool) (entries : List LookupHistoryEntry) : List Bytes :=
  if entries.length = 0 then
    if sayWhenEmpty then
      [ascii "  this thread had made no indirect calls at all, which is itself",
        ascii "  worth knowing: the very first one it made is the one that failed."]
    else []
  else
    (ascii "  the last " ++ decimal (entries.length % 2 ^ 64) ++
      ascii " addresses this thread called indirectly, oldest first.") ::
        lookupAdvice ++ lookupLoop entries.length 0 [] entries

/-- A captured frame: its address, and the text `describe_address` makes of it. -/
structure StackFrame where
  address : UInt64
  description : Bytes

/-- `MAX_PATH + 64` -/
def kFrameWhere : Nat := 324

def frameLine (i : Nat) (frame : StackFrame) : Bytes :=
  ascii "    " ++ (decimal i).leftpad 2 0x20 ++ ascii "  " ++
    (upperHex frame.address.toNat).leftpad 16 0x30 ++ ascii "  " ++
    frame.description.take (kFrameWhere - 1)

/-- `report_stack` asks for 32 frames. -/
def reportStack (frames : List StackFrame) : List Bytes :=
  let captured := frames.take 32
  (ascii "  stack (" ++ decimal captured.length ++ ascii " frames):") ::
    captured.mapIdx frameLine

inductive Terminating
  | standard (what : Bytes)
  | other
  | nothing

def terminateReason : Terminating → Bytes
  | .standard what => ascii "exception: " ++ cString what
  | .other => ascii "exception: not derived from std::exception"
  | .nothing => ascii "no active exception -- terminate was called directly"

/-- The messages `on_terminate` gives to `crash_line`, formatted. -/
def onTerminate (current : Terminating) (thread : UInt32) (history : List LookupHistoryEntry)
    (frames : List StackFrame) : List Bytes :=
  [terminateReason current, ascii "  thread: " ++ decimal thread.toNat] ++
    reportLookupHistory false history ++ reportStack frames

theorem crashWrites_stored_iff (realStderr : Int) (message : Bytes) :
    (∀ w ∈ crashWrites realStderr message, ReadsStored message w) ↔
      realStderr < 0 ∨ message.length ≤ 2047 ∨ kIntMax < message.length := by
  have fits : stored kCrashText message = min message.length 2047 := rfl
  unfold crashWrites vsnprintfResult
  by_cases whole : message.length ≤ kIntMax
  · simp only [if_pos whole]
    by_cases writes : realStderr ≥ 0 ∧ (message.length : Int) > 0
    · rw [if_pos writes]
      simp only [List.forall_mem_cons, ReadsStored, true_and, and_true, List.not_mem_nil,
        false_implies, implies_true, Int.toNat_natCast, fits]
      omega
    · rw [if_neg writes]
      refine ⟨fun _ => ?_, fun _ w hw => absurd hw List.not_mem_nil⟩
      omega
  · simp only [if_neg whole]
    rw [if_neg (by omega)]
    exact ⟨fun _ => Or.inr (Or.inr (Nat.lt_of_not_le whole)), fun _ w hw => absurd hw List.not_mem_nil⟩

theorem lookupCell_length (entry : LookupHistoryEntry) : (lookupCell entry).length ≤ 24 := by
  have address := (upperHex_length_le (n := entry.address.toNat) (k := 8) (by decide)).mpr
    entry.address.toNat_lt
  have repeats := (decimal_length_le (n := entry.repeats.toNat) (k := 10) (by decide)).mpr
    (lt_trans entry.repeats.toNat_lt (by decide))
  have lead : (ascii "  0x").length = 4 := rfl
  have times : (ascii " x").length = 2 := rfl
  have blank : (ascii "        ").length = 8 := rfl
  rw [lookupCell, List.length_append, List.length_append, List.length_leftpad, lead]
  split
  · rw [List.length_append, List.rightpad, List.length_append, List.length_replicate, times]
    omega
  · rw [blank]
    omega

/-- A row is four cells at most, so it fits the 256 bytes it is put together in. -/
theorem lookupLoop_length {count i : Nat} {line : Bytes} {entries : List LookupHistoryEntry}
    (gathered : line.length ≤ 24 * (i % 4)) :
    ∀ row ∈ lookupLoop count i line entries, row.length ≤ 98 := by
  induction entries generalizing i line with
  | nil => exact fun row hr => absurd hr List.not_mem_nil
  | cons entry rest ih =>
    have cell := lookupCell_length entry
    have longer : (line ++ lookupCell entry).length ≤ 24 * (i % 4) + 24 := by
      rw [List.length_append]
      omega
    unfold lookupLoop
    simp only
    split
    · rw [List.forall_mem_cons]
      refine ⟨?_, ih (Nat.zero_le _)⟩
      have trimmed := (List.rdropWhile_prefix (· == 0x20) (line ++ lookupCell entry)).length_le
      have lead : (ascii "  ").length = 2 := rfl
      rw [List.length_append, lead]
      omega
    · refine ih ?_
      omega

theorem lookupAdvice_length : ∀ message ∈ lookupAdvice, message.length ≤ 2047 := by
  decide +kernel

theorem reportLookupHistory_length (entries : List LookupHistoryEntry) :
    ∀ message ∈ reportLookupHistory false entries, message.length ≤ 2047 := by
  intro message hm
  unfold reportLookupHistory at hm
  split at hm
  · exact absurd hm List.not_mem_nil
  · have count : (decimal (entries.length % 2 ^ 64)).length ≤ 20 :=
      (decimal_length_le (by decide)).mpr (lt_trans (Nat.mod_lt _ (by decide)) (by decide))
    have first : (ascii "  the last ").length = 11 := rfl
    have last : (ascii " addresses this thread called indirectly, oldest first.").length = 55 := rfl
    rcases List.mem_append.mp hm with heading | row
    · rcases List.mem_cons.mp heading with rfl | fixed
      · rw [List.length_append, List.length_append, first, last]
        omega
      · exact lookupAdvice_length message fixed
    · have := lookupLoop_length (Nat.zero_le _) message row
      omega

theorem frameLine_length {i : Nat} (frame : StackFrame) (few : i < 32) :
    (frameLine i frame).length ≤ 2047 := by
  have index : (decimal i).length ≤ 2 := (decimal_length_le (by decide)).mpr (by omega)
  have address := (upperHex_length_le (n := frame.address.toNat) (k := 16) (by decide)).mpr
    frame.address.toNat_lt
  have lead : (ascii "    ").length = 4 := rfl
  have gap : (ascii "  ").length = 2 := rfl
  have described : (frame.description.take (kFrameWhere - 1)).length ≤ 323 := List.length_take_le _ _
  simp only [frameLine, List.length_append, List.length_leftpad, lead, gap]
  omega

theorem reportStack_length (frames : List StackFrame) :
    ∀ message ∈ reportStack frames, message.length ≤ 2047 := by
  have captured : (frames.take 32).length ≤ 32 := List.length_take_le _ _
  have count : (decimal (frames.take 32).length).length ≤ 2 :=
    (decimal_length_le (by decide)).mpr (by omega)
  have lead : (ascii "  stack (").length = 9 := rfl
  have tail : (ascii " frames):").length = 9 := rfl
  refine List.forall_mem_cons.mpr ⟨?_, fun message hm => ?_⟩
  · rw [List.length_append, List.length_append, lead, tail]
    omega
  · obtain ⟨i, hi, rfl⟩ := List.mem_mapIdx.mp hm
    exact frameLine_length _ (by omega)

/-- Everything `on_terminate` says is short but what the exception says. -/
theorem onTerminate_length (current : Terminating) (thread : UInt32)
    (history : List LookupHistoryEntry) (frames : List StackFrame) :
    ∀ message ∈ onTerminate current thread history frames,
      message = terminateReason current ∨ message.length ≤ 2047 := by
  have id : (decimal thread.toNat).length ≤ 10 :=
    (decimal_length_le (by decide)).mpr (lt_trans thread.toNat_lt (by decide))
  have lead : (ascii "  thread: ").length = 10 := rfl
  intro message hm
  rcases List.mem_append.mp hm with said | stack
  · rcases List.mem_append.mp said with reason | history
    · rcases List.mem_cons.mp reason with rfl | thread
      · exact Or.inl rfl
      · rw [List.mem_singleton.mp thread, List.length_append, lead]
        exact Or.inr (by omega)
    · exact Or.inr (reportLookupHistory_length _ message history)
  · exact Or.inr (reportStack_length frames message stack)

/-- What `crash_line` hands over from `text` was stored there exactly when the message fits, or
has no length an `int` can say; of `on_terminate` that is so exactly when `what()` fits. -/
theorem crash_text_stored_iff (realStderr : Int) :
    (∀ message, (∀ w ∈ crashWrites realStderr message, ReadsStored message w) ↔
      realStderr < 0 ∨ message.length ≤ 2047 ∨ kIntMax < message.length) ∧
    ∀ current thread history frames,
      (∀ message ∈ onTerminate current thread history frames,
        ∀ w ∈ crashWrites realStderr message, ReadsStored message w) ↔
      realStderr < 0 ∨ ∀ what, current = .standard what →
        (cString what).length ≤ 2036 ∨ kIntMax - 11 < (cString what).length := by
  refine ⟨crashWrites_stored_iff realStderr, fun current thread history frames => ?_⟩
  have lead : (ascii "exception: ").length = 11 := rfl
  have short := onTerminate_length current thread history frames
  have reason : terminateReason current ∈ onTerminate current thread history frames :=
    List.mem_append_left _ (List.mem_append_left _ List.mem_cons_self)
  simp only [crashWrites_stored_iff]
  constructor
  · intro all
    rcases all _ reason with closed | fits
    · exact Or.inl closed
    · refine Or.inr fun what hw => ?_
      subst hw
      rw [terminateReason, List.length_append, lead] at fits
      unfold kIntMax at *
      omega
  · rintro (closed | fits) message hm
    · exact Or.inl closed
    · rcases short message hm with rfl | brief
      · cases current with
        | standard what =>
          have := fits what rfl
          rw [terminateReason, List.length_append, lead]
          unfold kIntMax at *
          omega
        | other => exact Or.inr (Or.inl (by decide))
        | nothing => exact Or.inr (Or.inl (by decide))
      · exact Or.inr (Or.inl brief)

/-- An exception that says 4096 characters has 4107 handed over, out of an array of 2048. -/
theorem long_what_over_reads :
    ¬∀ message ∈ onTerminate (.standard (List.replicate 4096 0x78)) 1 [] [],
      ∀ w ∈ crashWrites 2 message, ReadsStored message w := by
  intro all
  have reason := (crashWrites_stored_iff 2 _).mp (all _ List.mem_cons_self)
  have text : cString (List.replicate 4096 0x78) = List.replicate 4096 0x78 := by
    rw [cString, List.takeWhile_replicate]
    rfl
  have lead : (ascii "exception: ").length = 11 := rfl
  rw [terminateReason, text, List.length_append, List.length_replicate, lead] at reason
  exact absurd reason (by decide)

end Rayman2Recomp
