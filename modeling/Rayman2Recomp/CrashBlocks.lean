import Rayman2Recomp.ReportLayout

open Disk Runs

namespace Rayman2Recomp

def Entry.isBegin : Entry → Bool
  | .event .crash _ text => text == beginMark
  | _ => false

def Entry.isEnd : Entry → Bool
  | .event .crash _ text => text == endMark
  | _ => false

def Entry.isCrashLine : Entry → Bool
  | .event .crash _ _ | .kind _ | .crashText _ | .crashAdvice => true
  | _ => false

theorem plain_marks {entry : Entry} (h : entry.isCrashLine = false) :
    entry.isBegin = false ∧ entry.isEnd = false := by
  cases entry with
  | event level => cases level <;> first | exact ⟨rfl, rfl⟩ | cases h
  | _ => exact ⟨rfl, rfl⟩

theorem isCrashLine_of_isEnd {entry : Entry} (h : entry.isEnd) : entry.isCrashLine := by
  cases entry with
  | event level => cases level <;> first | rfl | cases h
  | _ => cases h

theorem isHeading_of_isCrashLine {entry : Entry} (h : entry.isCrashLine) :
    entry.isHeading = false := by
  cases entry with
  | eventsHeading => cases h
  | _ => rfl

theorem endMark_ne_beginMark : endMark ≠ beginMark := by decide

section Lines

variable {ι : Type} {block : Option ι} {t u : ι} {lines before middle after : List (ι × Entry)}
  {b e : Entry}

/-- The thread whose crash block is open after a line. -/
def blockAfter (block : Option ι) (line : ι × Entry) : Option ι :=
  if line.2.isBegin then some line.1 else if line.2.isEnd then none else block

/-- A block opens where none is open, and its lines are its own thread's, which
writes nothing else meanwhile but perhaps the heading. -/
def OneBlock (block : Option ι) (line : ι × Entry) : Prop :=
  if line.2.isBegin then block = none
  else line.2.isHeading = false → (line.2.isCrashLine ↔ block = some line.1)

theorem blockAfter_plain {entry : Entry} (plain : entry.isCrashLine = false) :
    blockAfter block (t, entry) = block := by
  obtain ⟨opens, ends⟩ := plain_marks plain
  simp [blockAfter, opens, ends]

theorem run_plain {entries : List Entry} (plain : ∀ entry ∈ entries, entry.isCrashLine = false) :
    run blockAfter block (entries.map fun entry => (t, entry)) = block := by
  induction entries with
  | nil => rfl
  | cons entry rest ih =>
    rw [List.map_cons, run_cons, blockAfter_plain (plain entry List.mem_cons_self)]
    exact ih fun e he => plain e (List.mem_cons_of_mem entry he)

theorem plain_lines {entries : List Entry} (other : block ≠ some t)
    (plain : ∀ entry ∈ entries, entry.isCrashLine = false) :
    EveryStep blockAfter OneBlock block (entries.map fun entry => (t, entry)) := by
  induction entries with
  | nil => trivial
  | cons entry rest ih =>
    have here := plain entry List.mem_cons_self
    rw [List.map_cons, everyStep_cons, blockAfter_plain here]
    refine ⟨?_, ih fun e he => plain e (List.mem_cons_of_mem entry he)⟩
    simp [OneBlock, plain_marks here, here, other]

theorem block_stays (h : EveryStep blockAfter OneBlock (some t) lines)
    (open_still : ∀ line ∈ lines, line.2.isEnd → line.1 ≠ t) :
    run blockAfter (some t) lines = some t ∧
      ∀ line ∈ lines, line.2.isBegin = false ∧
        (line.2.isHeading = false → (line.2.isCrashLine ↔ line.1 = t)) := by
  induction lines with
  | nil => exact ⟨rfl, by simp⟩
  | cons line rest ih =>
    obtain ⟨here, next⟩ := h
    have opens : line.2.isBegin = false := by
      by_contra begins
      simp [OneBlock, begins] at here
    have own (text : line.2.isHeading = false) : line.2.isCrashLine ↔ line.1 = t := by
      rw [OneBlock, opens, if_neg Bool.false_ne_true, Option.some.injEq] at here
      exact (here text).trans eq_comm
    have ends : line.2.isEnd = false := by
      by_contra closes
      have ended : line.2.isEnd := by simpa using closes
      have crash := isCrashLine_of_isEnd ended
      exact open_still line List.mem_cons_self ended ((own (isHeading_of_isCrashLine crash)).mp crash)
    have stays : blockAfter (some t) line = some t := by simp [blockAfter, opens, ends]
    rw [stays] at next
    obtain ⟨state, rest_own⟩ := ih next fun l hl => open_still l (List.mem_cons_of_mem line hl)
    rw [run_cons, stays, List.forall_mem_cons]
    exact ⟨state, ⟨opens, own⟩, rest_own⟩

theorem block_begun (h : EveryStep blockAfter OneBlock none (before ++ (t, b) :: after))
    (begins : b.isBegin) : EveryStep blockAfter OneBlock (some t) after := by
  have next := (everyStep_append.mp h).2.2
  rwa [blockAfter, if_pos begins] at next

theorem block_at (h : EveryStep blockAfter OneBlock none
    (before ++ (t, b) :: (middle ++ (u, e) :: after))) (begins : b.isBegin)
    (open_still : ∀ line ∈ middle, line.2.isEnd → line.1 ≠ t) : OneBlock (some t) (u, e) := by
  obtain ⟨within, rest⟩ := everyStep_append.mp (block_begun h begins)
  rw [(block_stays within open_still).1] at rest
  exact rest.1

end Lines

def Pc.inBlock : Pc → Bool
  | .crashLines _ => true
  | _ => false

/-- The thread has `g_crash_mutex`. -/
def Pc.holds : Pc → Bool
  | .openCrash _ _ | .crashLines _ | .unlockCrash | .leaveCrashBlock _ => true
  | _ => false

theorem inBlock_holds {pc : Pc} (h : pc.inBlock) : pc.holds := by
  cases pc <;> first | exact h | rfl

variable {ι : Type} {r r' : Report ι} {pcs : ι → Pc} {t : ι} {pc : Pc}

structure BlocksHeld (r : Report ι) (pcs : ι → Pc) : Prop where
  owned : ∀ u, (pcs u).holds → r.crashOwner = some u
  ordered : EveryStep blockAfter OneBlock none r.lines
  current : r.isOpen → ∀ u, run blockAfter none r.lines = some u ↔ (pcs u).inBlock

theorem others_outside (held : BlocksHeld r pcs) (mine : (pcs t).holds) :
    ∀ u, u ≠ t → (pcs u).inBlock = false := by
  intro u other
  by_contra inside
  have theirs := held.owned u (inBlock_holds (by simpa using inside))
  rw [held.owned t mine] at theirs
  exact other (Option.some.inj theirs).symm

theorem own_block_open {texts : List Bytes} (held : BlocksHeld r pcs)
    (stands : pcs t = .crashLines texts) (opened : r.isOpen) :
    run blockAfter none r.lines = some t := by
  rw [held.current opened t, stands]
  rfl

theorem blocksHeld_begun (opened : Bool) :
    BlocksHeld (Report.begun opened) fun _ : ι => .idle := by
  refine ⟨?_, trivial, ?_⟩ <;> simp [Report.begun, Pc.holds, Pc.inBlock]

theorem lineEntries_plain {headerOpen : Bool} {level : Level} {category text : Bytes}
    (h : level ≠ .crash) :
    ∀ entry ∈ lineEntries headerOpen level category text, entry.isCrashLine = false := by
  have event : (Entry.event level category text).isCrashLine = false := by
    cases level <;> first | rfl | exact absurd rfl h
  intro entry mem
  cases headerOpen <;> simp only [lineEntries, Bool.false_eq_true, if_true, if_false,
    List.nil_append, List.mem_append, List.mem_singleton] at mem
  · rwa [mem]
  · rcases mem with rfl | rfl
    · rfl
    · exact event

def WritesPlain (r r' : Report ι) (t : ι) : Prop :=
  ∃ entries : List Entry, (∀ entry ∈ entries, r.isOpen ∧ entry.isCrashLine = false) ∧
    r'.lines = r.lines ++ (entries.map fun entry => (t, entry)) ∧
    r'.crashOwner = r.crashOwner ∧ (r'.isOpen → r.isOpen)

theorem writesPlain_same (t : ι) (lines : r'.lines = r.lines)
    (owner : r'.crashOwner = r.crashOwner) (opened : r'.isOpen → r.isOpen) : WritesPlain r r' t :=
  ⟨[], by simp, by simpa using lines, owner, opened⟩

theorem writesPlain_wrote {entries : List Entry}
    (wrote : Wrote r r' t (if r.isOpen then entries else [])) (opened : r'.isOpen → r.isOpen)
    (plain : ∀ entry ∈ entries, entry.isCrashLine = false) : WritesPlain r r' t := by
  refine ⟨_, fun entry mem => ?_, wrote.lines, wrote.owner, opened⟩
  split at mem
  next h => exact ⟨h, plain entry mem⟩
  next => cases mem

theorem writeLine_plain (r : Report ι) (t : ι) {level : Level} (h : level ≠ .crash)
    (category text : Bytes) : WritesPlain r (writeLine r t level category text) t :=
  writesPlain_wrote (writeLine_wrote r t level category text)
    (fun opened => writeLine_isOpen r t level category text ▸ opened) (lineEntries_plain h)

theorem writeMirrored_plain (r : Report ι) (t : ι) (line : Bytes) :
    WritesPlain r (writeMirrored r t line) t := by
  have level : classify line ≠ .crash := by
    rcases classify_level line with h | h | h <;> rw [h] <;> nofun
  obtain ⟨lines, opened, _, owner⟩ := countClassified_rest r (classify line)
  have plain := writeLine_plain (countClassified r (classify line)) t level (ascii "out")
    (cString line)
  rwa [WritesPlain, lines, opened, owner] at plain

theorem addContext_plain (r : Report ι) (t : ι) (key value : Bytes) :
    WritesPlain r (addContext r t key value) t := by
  refine writesPlain_wrote (addContext_wrote r t key value)
    (fun opened => addContext_isOpen r t key value ▸ opened) ?_
  split <;> simp [Entry.isCrashLine]

theorem closeReport_plain (r : Report ι) (t : ι) (clean : Bool) :
    WritesPlain r (closeReport r t clean) t := by
  refine writesPlain_wrote (closeReport_wrote r t clean) (fun opened => ?_) ?_
  · rw [closeReport_isOpen] at opened
    cases opened
  · simp [Report.summaryEntry, Entry.isCrashLine]

variable [DecidableEq ι]

theorem owned_keep (held : BlocksHeld r pcs) (owner : r'.crashOwner = r.crashOwner)
    (keeps : pc.holds → (pcs t).holds) :
    ∀ u, (Function.update pcs t pc u).holds → r'.crashOwner = some u := by
  intro u h
  rw [owner]
  rcases update_cases (P := fun pc => Pc.holds pc = true) h with ⟨rfl, now⟩ | ⟨_, before⟩
  · exact held.owned u (keeps now)
  · exact held.owned u before

theorem owned_take (held : BlocksHeld r pcs) (free : r.crashOwner = none)
    (owner : r'.crashOwner = some t) :
    ∀ u, (Function.update pcs t pc u).holds → r'.crashOwner = some u := by
  intro u h
  rcases update_cases (P := fun pc => Pc.holds pc = true) h with ⟨rfl, _⟩ | ⟨_, before⟩
  · exact owner
  · have owned := held.owned u before
    rw [free] at owned
    cases owned

theorem owned_drop (held : BlocksHeld r pcs) (mine : (pcs t).holds) (leaves : pc.holds = false) :
    ∀ u, (Function.update pcs t pc u).holds → r'.crashOwner = some u := by
  intro u h
  rcases update_cases (P := fun pc => Pc.holds pc = true) h with ⟨rfl, now⟩ | ⟨other, before⟩
  · rw [leaves] at now
    cases now
  · have owned := held.owned t mine
    rw [held.owned u before] at owned
    exact absurd (Option.some.inj owned) other

theorem blocksHeld_plain {entries : List Entry} (held : BlocksHeld r pcs)
    (outside : (pcs t).inBlock = false) (stays : pc.inBlock = false)
    (owned : ∀ u, (Function.update pcs t pc u).holds → r'.crashOwner = some u)
    (opened : r'.isOpen → r.isOpen)
    (plain : ∀ entry ∈ entries, r.isOpen ∧ entry.isCrashLine = false)
    (lines : r'.lines = r.lines ++ entries.map fun entry => (t, entry)) :
    BlocksHeld r' (Function.update pcs t pc) := by
  have quiet : ∀ entry ∈ entries, entry.isCrashLine = false := fun entry mem => (plain entry mem).2
  have ok : EveryStep blockAfter OneBlock (run blockAfter none r.lines)
      (entries.map fun entry => (t, entry)) := by
    cases entries with
    | nil => trivial
    | cons entry rest =>
      refine plain_lines (fun block => ?_) quiet
      rw [held.current (plain entry List.mem_cons_self).1 t, outside] at block
      cases block
  refine ⟨owned, ?_, fun h u => ?_⟩
  · rw [lines, everyStep_append]
    exact ⟨held.ordered, ok⟩
  · rw [lines, run_append, run_plain quiet, held.current (opened h) u]
    by_cases same : u = t
    · subst u
      rw [Function.update_self, outside, stays]
    · rw [Function.update_of_ne same]

theorem blocksHeld_silent (held : BlocksHeld r pcs) (outside : (pcs t).inBlock = false)
    (stays : pc.inBlock = false)
    (owned : ∀ u, (Function.update pcs t pc u).holds → r'.crashOwner = some u)
    (opened : r'.isOpen → r.isOpen) (lines : r'.lines = r.lines) :
    BlocksHeld r' (Function.update pcs t pc) := by
  have nothing : ∀ entry ∈ ([] : List Entry), r.isOpen ∧ entry.isCrashLine = false := by simp
  exact blocksHeld_plain held outside stays owned opened nothing (by simpa using lines)

theorem blocksHeld_writes (held : BlocksHeld r pcs) (outside : (pcs t).inBlock = false)
    (stays : pc.inBlock = false) (keeps : pc.holds → (pcs t).holds) (writes : WritesPlain r r' t) :
    BlocksHeld r' (Function.update pcs t pc) := by
  obtain ⟨entries, plain, lines, owner, opened⟩ := writes
  exact blocksHeld_plain held outside stays (owned_keep held owner keeps) opened plain lines

/-- A section of the thread that holds the mutex: with the report open, these
lines take the open block where the thread then stands. -/
theorem blocksHeld_section {entries : List Entry} {block : Option ι} (held : BlocksHeld r pcs)
    (mine : (pcs t).holds) (wrote : Wrote r r' t (if r.isOpen then entries else []))
    (same_open : r'.isOpen = r.isOpen)
    (before : r.isOpen → run blockAfter none r.lines = block)
    (ok : EveryStep blockAfter OneBlock block (entries.map fun entry => (t, entry)))
    (after : run blockAfter block (entries.map fun entry => (t, entry)) =
      if pc.inBlock then some t else none) :
    BlocksHeld r' (Function.update pcs t pc) := by
  have owned : ∀ u, (Function.update pcs t pc u).holds → r'.crashOwner = some u :=
    owned_keep held wrote.owner fun _ => mine
  have lines := wrote.lines
  cases opened : r.isOpen with
  | false =>
    rw [opened, if_neg Bool.false_ne_true, List.map_nil, List.append_nil] at lines
    refine ⟨owned, lines ▸ held.ordered, fun h => ?_⟩
    rw [same_open, opened] at h
    cases h
  | true =>
    rw [if_pos opened] at lines
    refine ⟨owned, ?_, fun _ u => ?_⟩
    · rw [lines, everyStep_append, before opened]
      exact ⟨held.ordered, ok⟩
    · rw [lines, run_append, before opened, after]
      by_cases same : u = t
      · subst u
        rw [Function.update_self]
        cases pc.inBlock <;> simp
      · rw [Function.update_of_ne same, others_outside held mine u same]
        cases pc.inBlock <;> simp [Ne.symm same]

theorem blocksHeld_openCrash {kind : Bytes} {texts : List Bytes} (held : BlocksHeld r pcs)
    (stands : pcs t = .openCrash kind texts) :
    BlocksHeld (openCrash r t kind) (Function.update pcs t (.crashLines texts)) := by
  have mine : (pcs t).holds := by rw [stands]; rfl
  have none_open : r.isOpen → run blockAfter none r.lines = none := by
    intro opened
    cases block : run blockAfter none r.lines with
    | none => rfl
    | some u =>
      have inside := (held.current opened u).mp block
      by_cases same : u = t
      · rw [same, stands] at inside
        cases inside
      · rw [others_outside held mine u same] at inside
        cases inside
  refine blocksHeld_section held mine (openCrash_wrote r t kind) (openCrash_isOpen r t kind)
    none_open ?_ ?_ <;>
    cases r.headerOpen <;>
    simp [lineEntries, everyStep_cons, OneBlock, blockAfter, Entry.isBegin, Entry.isEnd,
      Entry.isCrashLine, Pc.inBlock]

theorem blocksHeld_crashLine {text : Bytes} {texts : List Bytes} (held : BlocksHeld r pcs)
    (stands : pcs t = .crashLines (text :: texts)) :
    BlocksHeld (crashLine r t text) (Function.update pcs t (.crashLines texts)) := by
  have mine : (pcs t).holds := by rw [stands]; rfl
  refine blocksHeld_section held mine (crashLine_wrote r t text) (crashLine_isOpen r t text)
    (own_block_open held stands) ?_ ?_ <;>
    simp [everyStep_cons, OneBlock, blockAfter, Entry.isBegin, Entry.isEnd, Entry.isCrashLine,
      Pc.inBlock]

theorem blocksHeld_closeCrash (held : BlocksHeld r pcs) (stands : pcs t = .crashLines []) :
    BlocksHeld (closeCrash r t) (Function.update pcs t .unlockCrash) := by
  have mine : (pcs t).holds := by rw [stands]; rfl
  refine blocksHeld_section held mine (closeCrash_wrote r t) (closeCrash_isOpen r t)
    (own_block_open held stands) ?_ ?_ <;>
    cases r.headerOpen <;>
    simp [lineEntries, everyStep_cons, OneBlock, blockAfter, endMark_ne_beginMark,
      Entry.isBegin, Entry.isEnd, Entry.isCrashLine, Entry.isHeading, Pc.inBlock]

theorem blocksHeld_moves (held : BlocksHeld r pcs) (moves : Moves r t (pcs t) pc r') :
    BlocksHeld r' (Function.update pcs t pc) := by
  generalize stands : pcs t = before at moves
  have outside (h : before.inBlock = false) : (pcs t).inBlock = false := stands ▸ h
  have mine (h : before.holds) : (pcs t).holds := stands ▸ h
  have keeps {next : Pc} (h : next.holds = false) : next.holds → (pcs t).holds := by simp [h]
  cases moves with
  | info =>
    have level : Level.info ≠ .crash := nofun
    exact blocksHeld_writes held (outside rfl) rfl (keeps rfl) (writeLine_plain r t level _ _)
  | writeWarning =>
    have level : Level.warn ≠ .crash := nofun
    exact blocksHeld_writes held (outside rfl) rfl (keeps rfl) (writeLine_plain r t level _ _)
  | writeError =>
    have level : Level.error ≠ .crash := nofun
    exact blocksHeld_writes held (outside rfl) rfl (keeps rfl) (writeLine_plain r t level _ _)
  | countWarning | countError | countCrash | giveUp | endSession | stopMirror =>
    exact blocksHeld_writes held (outside rfl) rfl (keeps rfl) (writesPlain_same t rfl rfl id)
  | addContext =>
    exact blocksHeld_writes held (outside rfl) rfl (keeps rfl) (addContext_plain r t _ _)
  | writeMirrored =>
    exact blocksHeld_writes held (outside rfl) rfl (keeps rfl) (writeMirrored_plain r t _)
  | closeReport =>
    exact blocksHeld_writes held (outside rfl) rfl (keeps rfl) (closeReport_plain r t _)
  | awaitBlock _ free | lockCrash _ _ free =>
    exact blocksHeld_silent held (outside rfl) rfl (owned_take held free rfl) id rfl
  | unlockCrash | leaveCrashBlock =>
    exact blocksHeld_silent held (outside rfl) rfl (owned_drop held (mine rfl) rfl) id rfl
  | openCrash => exact blocksHeld_openCrash held stands
  | crashLine => exact blocksHeld_crashLine held stands
  | closeCrash => exact blocksHeld_closeCrash held stands

theorem blocksHeld_session (opened : Bool) (calls : ι → List ReportCall) (pump : Option ι)
    (choices : List (Turn ι)) :
    BlocksHeld (run (turn pump) (Session.start opened calls) choices).report
      (run (turn pump) (Session.start opened calls) choices).pc :=
  session_invariant (blocksHeld_begun opened)
    (fun _ _ _ _ _ held moves => blocksHeld_moves held moves) pump choices

end Rayman2Recomp
