import Rayman2Recomp.CrashWrites

open Disk Runs

namespace Rayman2Recomp

variable {ι : Type}

/-- `inside` is what stands between a BEGIN line and the END line of its block. -/
def CrashBlock (lines : List (ι × Entry)) (t : ι) (inside : List (ι × Entry)) : Prop :=
  ∃ before b e after, lines = before ++ (t, b) :: (inside ++ (t, e) :: after) ∧
    b.isBegin ∧ e.isEnd ∧ ∀ line ∈ inside, line.2.isEnd → line.1 ≠ t

def OwnLine (t : ι) (line : ι × Entry) : Prop :=
  line.1 = t ∧ line.2.isCrashLine ∧ line.2.isBegin = false

/-- Crash blocks stand alone, and a summary comes when all of them have ended. -/
def BlocksIntact (lines : List (ι × Entry)) : Prop :=
  (∀ t inside, CrashBlock lines t inside → ∀ line ∈ inside, OwnLine t line) ∧
    ∀ before t b middle u s after, lines = before ++ (t, b) :: (middle ++ (u, s) :: after) →
      b.isBegin → s.isSummary → ∃ e, e.isEnd ∧ (t, e) ∈ middle

def Entry.isPlainEvent (entry : Entry) : Bool := entry.isEvent && !entry.isCrashLine

/-- Crash blocks share no lines: only event lines of other threads stand between
their own, and only the last block before a summary may lack its END. -/
structure BlocksApart (lines : List (ι × Entry)) : Prop where
  inside : ∀ t inside, CrashBlock lines t inside → ∀ line ∈ inside,
    OwnLine t line ∨ line.1 ≠ t ∧ line.2.isPlainEvent
  next : ∀ before t b middle u b' after,
    lines = before ++ (t, b) :: (middle ++ (u, b') :: after) → b.isBegin → b'.isBegin →
      ∃ e, e.isEnd ∧ (t, e) ∈ middle
  ended : ∀ before t b middle u s after,
    lines = before ++ (t, b) :: (middle ++ (u, s) :: after) → b.isBegin → s.isSummary →
      (∃ e, e.isEnd ∧ (t, e) ∈ middle) ∨ u ≠ t ∧ ∀ line ∈ middle, line.2.isBegin = false

theorem inside_layout {lines before inside after : List (ι × Entry)} {t : ι} {b e : Entry}
    (layout : EveryStep layoutAfter InPlace .header lines)
    (split : lines = before ++ (t, b) :: (inside ++ (t, e) :: after)) (begins : b.isBegin) :
    ∀ line ∈ inside, line.2.isHeading = false ∧ line.2.isContext = false ∧
      line.2.isSummary = false := by
  subst split
  have event : b.isEvent := by
    cases b with
    | event => rfl
    | _ => cases begins
  intro line mem
  obtain ⟨heading, context⟩ :=
    after_events layout (Or.inr event) line (List.mem_append_left _ mem)
  refine ⟨heading, context, ?_⟩
  by_contra summary
  obtain ⟨front, back, rfl⟩ := List.append_of_mem mem
  have rest : front ++ line :: back ++ (t, e) :: after = front ++ line :: (back ++ (t, e) :: after) :=
    List.append_assoc _ _ _
  rw [rest, ← List.cons_append, ← List.append_assoc] at layout
  have nothing := summary_last layout (by simpa using summary)
  simp at nothing

theorem plainEvent_of_other {entry : Entry} (heading : entry.isHeading = false)
    (context : entry.isContext = false) (summary : entry.isSummary = false)
    (crash : entry.isCrashLine = false) : entry.isPlainEvent := by
  cases entry with
  | event level category text => simp [Entry.isPlainEvent, Entry.isEvent, crash]
  | eventsHeading => cases heading
  | context => cases context
  | summary => cases summary
  | _ => cases crash

theorem blocksApart_of_held {r : Report ι} {pcs : ι → Pc} (layout : LayoutHeld r)
    (held : BlocksHeld r pcs) : BlocksApart r.lines := by
  have ordered := held.ordered
  refine ⟨?_, ?_, ?_⟩
  · rintro t inside ⟨before, b, e, after, split, begins, ends, open_still⟩ line mem
    obtain ⟨heading, context, summary⟩ := inside_layout layout.ordered split begins line mem
    rw [split] at ordered
    have within := (everyStep_append.mp (block_begun ordered begins)).1
    obtain ⟨opens, own⟩ := (block_stays within open_still).2 line mem
    cases crash : line.2.isCrashLine with
    | true => exact Or.inl ⟨(own heading).mp crash, crash, opens⟩
    | false =>
      refine Or.inr ⟨fun mine => ?_, plainEvent_of_other heading context summary crash⟩
      rw [(own heading).mpr mine] at crash
      cases crash
  · intro before t b middle u b' after split begins begins'
    rw [split] at ordered
    by_contra unended
    have here := block_at ordered begins fun line mem ends author =>
      unended ⟨line.2, ends, author ▸ mem⟩
    rw [OneBlock, if_pos begins'] at here
    cases here
  · intro before t b middle u s after split begins summary
    rw [split] at ordered
    by_cases ended : ∃ e, e.isEnd ∧ (t, e) ∈ middle
    · exact Or.inl ended
    · have open_still : ∀ line ∈ middle, line.2.isEnd → line.1 ≠ t := fun line mem ends author =>
        ended ⟨line.2, ends, author ▸ mem⟩
      have here := block_at ordered begins open_still
      have within := (everyStep_append.mp (block_begun ordered begins)).1
      refine Or.inr ⟨fun author => ?_, fun line mem => ((block_stays within open_still).2 line mem).1⟩
      cases s with
      | summary => simp [OneBlock, author, Entry.isBegin, Entry.isHeading, Entry.isCrashLine] at here
      | _ => cases summary

variable [DecidableEq ι]

/-- No interleaving of the threads mixes two crash blocks. -/
theorem crash_blocks_apart (opened : Bool) (calls : ι → List ReportCall) (pump : Option ι)
    (choices : List (Turn ι)) :
    BlocksApart (run (turn pump) (Session.start opened calls) choices).report.lines :=
  blocksApart_of_held (layoutHeld_session opened calls pump choices)
    (blocksHeld_session opened calls pump choices)

/-- In every run in which no line of another kind is written while a crash block is open, the
blocks are intact. -/
theorem crash_blocks_intact (opened : Bool) (calls : ι → List ReportCall) (pump : Option ι)
    (choices : List (Turn ι))
    (outside : EveryStep (turn pump) WritesOutside (Session.start opened calls) choices) :
    BlocksIntact (run (turn pump) (Session.start opened calls) choices).report.lines := by
  have apart := crash_blocks_apart opened calls pump choices
  have ordered := (blocksHeld_session opened calls pump choices).ordered
  have quiet := (plainOutside_session_iff opened calls pump choices).mpr outside choices
    List.prefix_rfl
  constructor
  · intro t inside block line mem
    refine (apart.inside t inside block line mem).resolve_right ?_
    rintro ⟨-, plain⟩
    obtain ⟨before, b, e, after, split, begins, -, open_still⟩ := block
    obtain ⟨front, back, rfl⟩ := List.append_of_mem mem
    rw [List.append_assoc, List.cons_append] at split
    have own := open_block_refuses ordered quiet split begins fun l there =>
      open_still l (List.mem_append_left _ there)
    rw [Entry.isPlainEvent, Bool.and_eq_true, Bool.not_eq_true'] at plain
    rcases own with crash | heading
    · rw [plain.2] at crash
      cases crash
    · cases entry : line.2 with
      | eventsHeading => simp [entry, Entry.isEvent] at plain
      | _ => simp [entry, Entry.isHeading] at heading
  · intro before t b middle u s after split begins summary
    by_contra unended
    have own := open_block_refuses ordered quiet split begins fun l there ends author =>
      unended ⟨l.2, ends, author ▸ there⟩
    cases s with
    | summary => rcases own with h | h <;> cases h
    | _ => cases summary

/-- Two threads in this order, with no wait that times out. -/
def inOrder (threads : List (Fin 2)) : List (Turn (Fin 2)) := threads.map fun t => ⟨t, false⟩

/-- A thread that crashes and ends the session, and one that logs. -/
def crashAndLog : Fin 2 → List ReportCall
  | 0 => [.crash [] [[]], .endSession false]
  | 1 => [.info [] []]

/-- The other thread's line comes before the section that writes BEGIN. -/
theorem crash_blocks_intact_crashAndLog :
    BlocksIntact (run (turn none) (Session.start true crashAndLog)
      (inOrder [0, 0, 1, 0, 0, 0, 0, 0, 0, 0])).report.lines := by
  refine crash_blocks_intact true crashAndLog none _ ?_
  simp [inOrder, crashAndLog, everyStep_cons, WritesOutside, Session.writesPlain, Pc.writesPlain,
    ReportCall.writesPlain, Pc.inBlock, turn, stepThread, enterCall, Session.start, Session.goto,
    ReportCall.waits, Report.begun, Report.append, countCrash, openCrash, crashLine, closeCrash,
    writeLine, Function.update]

/-- A block, and a call of another thread. -/
def crashAndCall (call : ReportCall) : Fin 2 → List ReportCall
  | 0 => [.crash [] []]
  | 1 => [call]

theorem foreign_line {ι : Type} {lines before inside after : List (ι × Entry)} {t : ι}
    {b e : Entry} (line : ι × Entry)
    (split : lines = before ++ (t, b) :: (inside ++ (t, e) :: after)) (begins : b.isBegin)
    (ends : e.isEnd) (open_still : ∀ l ∈ inside, l.2.isEnd → l.1 ≠ t) (mem : line ∈ inside)
    (other : line.1 ≠ t) : ¬BlocksIntact lines := by
  intro intact
  have block : CrashBlock lines t inside := ⟨before, b, e, after, split, begins, ends, open_still⟩
  exact other (intact.1 t inside block line mem).1

/-- `info` asks for `g_mutex` only, so its line lands in another thread's block. -/
theorem event_line_in_block :
    ¬BlocksIntact (run (turn none) (Session.start true (crashAndCall (.info [] [])))
      (inOrder [0, 0, 0, 1, 0])).report.lines := by
  have split : (run (turn none) (Session.start true (crashAndCall (.info [] [])))
      (inOrder [0, 0, 0, 1, 0])).report.lines =
      [(0, .eventsHeading)] ++ (0, .event .crash (ascii "crash") beginMark) ::
        ([(0, .kind []), (1, .event .info [] []), (0, .crashAdvice)] ++
          (0, .event .crash (ascii "crash") endMark) :: []) := by
    simp [inOrder, crashAndCall, run, turn, stepThread, enterCall, Session.start, Session.goto,
      ReportCall.waits, Report.begun, Report.append, countCrash, openCrash, closeCrash, writeLine,
      formatted, Function.update]
  exact foreign_line (1, .event .info [] []) split (beq_self_eq_true _) (beq_self_eq_true _)
    (by simp [Entry.isEnd]) (by simp) (by decide)

/-- The pump lets go of the crash mutex before it writes. -/
theorem mirrored_line_in_block :
    ¬BlocksIntact (run (turn (some 1)) (Session.start true (crashAndCall (.mirror [])))
      (inOrder [1, 1, 0, 0, 0, 1, 0])).report.lines := by
  have level : classify [] = .log := by decide +kernel
  have split : (run (turn (some 1)) (Session.start true (crashAndCall (.mirror [])))
      (inOrder [1, 1, 0, 0, 0, 1, 0])).report.lines =
      [(0, .eventsHeading)] ++ (0, .event .crash (ascii "crash") beginMark) ::
        ([(0, .kind []), (1, .event .log (ascii "out") []), (0, .crashAdvice)] ++
          (0, .event .crash (ascii "crash") endMark) :: []) := by
    simp [inOrder, crashAndCall, run, turn, stepThread, enterCall, Session.start, Session.goto,
      ReportCall.waits, Report.begun, Report.append, countCrash, openCrash, closeCrash, writeLine,
      Function.update, writeMirrored, level, countClassified, cString]
  exact foreign_line (1, .event .log (ascii "out") []) split (beq_self_eq_true _)
    (beq_self_eq_true _) (by simp [Entry.isEnd]) (by simp) (by decide)

/-- `end_session` closes the file under a block, whose END is not written any more. -/
theorem summary_in_block :
    ¬BlocksIntact (run (turn none) (Session.start true (crashAndCall (.endSession true)))
      (inOrder [0, 0, 0, 1, 1, 1, 0])).report.lines := by
  have split : (run (turn none) (Session.start true (crashAndCall (.endSession true)))
      (inOrder [0, 0, 0, 1, 1, 1, 0])).report.lines =
      [(0, .eventsHeading)] ++ (0, .event .crash (ascii "crash") beginMark) ::
        ([(0, .kind [])] ++ (1, .summary 0 0 1 true false) :: []) := by
    simp [inOrder, crashAndCall, run, turn, stepThread, enterCall, Session.start, Session.goto,
      ReportCall.waits, Report.begun, Report.append, countCrash, openCrash, closeCrash, writeLine,
      Function.update, closeReport, counterValue, finished]
  intro intact
  obtain ⟨e, ends, mem⟩ := intact.2 _ _ _ _ _ _ _ split (beq_self_eq_true _) rfl
  rw [List.mem_singleton, Prod.mk.injEq] at mem
  rw [mem.2] at ends
  cases ends

/-- Events, mirrored lines and the summary each get into the block of another thread. -/
theorem foreign_lines_in_blocks :
    ¬BlocksIntact (run (turn none) (Session.start true (crashAndCall (.info [] [])))
        (inOrder [0, 0, 0, 1, 0])).report.lines ∧
      ¬BlocksIntact (run (turn (some 1)) (Session.start true (crashAndCall (.mirror [])))
        (inOrder [1, 1, 0, 0, 0, 1, 0])).report.lines ∧
      ¬BlocksIntact (run (turn none) (Session.start true (crashAndCall (.endSession true)))
        (inOrder [0, 0, 0, 1, 1, 1, 0])).report.lines :=
  ⟨event_line_in_block, mirrored_line_in_block, summary_in_block⟩

end Rayman2Recomp
