import Rayman2Recomp.ReportThreads

open Disk Runs

namespace Rayman2Recomp

def Entry.isHeading : Entry → Bool
  | .eventsHeading => true
  | _ => false

def Entry.isEvent : Entry → Bool
  | .event _ _ _ => true
  | _ => false

def Entry.isContext : Entry → Bool
  | .context _ _ => true
  | _ => false

def Entry.isSummary : Entry → Bool
  | .summary _ _ _ _ _ => true
  | _ => false

/-- The part of the file that is being written. -/
inductive ReportPart
  | header
  | events
  | ended

variable {ι : Type}

def layoutAfter (layout : ReportPart) (line : ι × Entry) : ReportPart :=
  match line.2 with
  | .eventsHeading => .events
  | .summary _ _ _ _ _ => .ended
  | _ => layout

def InPlace (layout : ReportPart) (line : ι × Entry) : Prop :=
  match line.2 with
  | .eventsHeading | .context _ _ => layout = .header
  | .event _ _ _ => layout = .events
  | _ => layout ≠ .ended

/-- The part an open report is in, by `g_header_open`. -/
def Report.layout (r : Report ι) : ReportPart := if r.headerOpen then .header else .events

structure LayoutHeld (r : Report ι) : Prop where
  ordered : EveryStep layoutAfter InPlace .header r.lines
  current : r.isOpen → run layoutAfter .header r.lines = r.layout

theorem layout_not_ended (r : Report ι) : r.layout ≠ .ended := by
  unfold Report.layout
  split <;> nofun

theorem layoutHeld_append {r : Report ι} (held : LayoutHeld r) (opened : r.isOpen) (t : ι)
    (entry : Entry) (here : InPlace r.layout (t, entry))
    (stays : layoutAfter r.layout (t, entry) = r.layout) : LayoutHeld (r.append t [entry]) := by
  have state := held.current opened
  refine ⟨?_, fun _ => ?_⟩
  · change EveryStep layoutAfter InPlace .header (r.lines ++ [(t, entry)])
    rw [everyStep_snoc, state]
    exact ⟨held.ordered, here⟩
  · change run layoutAfter .header (r.lines ++ [(t, entry)]) = r.layout
    rw [run_snoc, state, stays]

theorem layoutHeld_writeLine {r : Report ι} (held : LayoutHeld r) (t : ι) (level : Level)
    (category text : Bytes) : LayoutHeld (writeLine r t level category text) := by
  cases opened : r.isOpen with
  | false => rwa [writeLine_closed opened]
  | true =>
    have state := held.current opened
    have lines := (writeLine_wrote r t level category text).lines
    rw [if_pos opened] at lines
    have next : (writeLine r t level category text).layout = .events := by
      rw [writeLine_open opened]
      rfl
    refine ⟨?_, fun _ => ?_⟩
    · rw [lines, everyStep_append, state]
      refine ⟨held.ordered, ?_⟩
      cases header : r.headerOpen <;>
        simp [lineEntries, Report.layout, header, everyStep_cons, InPlace, layoutAfter]
    · rw [next, lines, run_append, state]
      cases header : r.headerOpen <;> simp [lineEntries, Report.layout, header, layoutAfter]

theorem layoutHeld_addContext {r : Report ι} (held : LayoutHeld r) (t : ι) (key value : Bytes) :
    LayoutHeld (addContext r t key value) := by
  unfold addContext
  split
  next => exact held
  next opened =>
    split
    next header =>
      have layout : r.layout = .header := if_pos header
      exact layoutHeld_append held (by simpa using opened) t _ layout rfl
    next => exact layoutHeld_writeLine held t _ _ _

theorem layoutHeld_openCrash {r : Report ι} (held : LayoutHeld r) (t : ι) (kind : Bytes) :
    LayoutHeld (openCrash r t kind) := by
  unfold openCrash
  split
  next => exact held
  next opened =>
    have marked := layoutHeld_writeLine held t .crash (ascii "crash") beginMark
    refine layoutHeld_append marked ?_ t (.kind kind) (layout_not_ended _) rfl
    rw [writeLine_isOpen]
    simpa using opened

theorem layoutHeld_crashLine {r : Report ι} (held : LayoutHeld r) (t : ι) (text : Bytes) :
    LayoutHeld (crashLine r t text) := by
  unfold crashLine
  split
  next => exact held
  next opened =>
    exact layoutHeld_append held (by simpa using opened) t _ (layout_not_ended r) rfl

theorem layoutHeld_closeCrash {r : Report ι} (held : LayoutHeld r) (t : ι) :
    LayoutHeld (closeCrash r t) := by
  unfold closeCrash
  split
  next => exact held
  next opened =>
    have advised : LayoutHeld (r.append t [.crashAdvice]) :=
      layoutHeld_append held (by simpa using opened) t _ (layout_not_ended r) rfl
    exact layoutHeld_writeLine advised t _ _ _

theorem layoutHeld_closeReport {r : Report ι} (held : LayoutHeld r) (t : ι) (clean : Bool) :
    LayoutHeld (closeReport r t clean) := by
  have closed := closeReport_isOpen r t clean
  refine ⟨?_, fun opened => by rw [closed] at opened; cases opened⟩
  have lines := (closeReport_wrote r t clean).lines
  cases opened : r.isOpen with
  | false =>
    rw [opened, if_neg Bool.false_ne_true, List.map_nil, List.append_nil] at lines
    exact lines ▸ held.ordered
  | true =>
    rw [if_pos opened, List.map_cons, List.map_nil] at lines
    rw [lines, everyStep_snoc, held.current opened]
    exact ⟨held.ordered, layout_not_ended r⟩

theorem layoutHeld_writeMirrored {r : Report ι} (held : LayoutHeld r) (t : ι) (line : Bytes) :
    LayoutHeld (writeMirrored r t line) := by
  obtain ⟨lines, opened, header, _⟩ := countClassified_rest r (classify line)
  have counted : LayoutHeld (countClassified r (classify line)) := by
    refine ⟨lines ▸ held.ordered, fun h => ?_⟩
    rw [lines, Report.layout, header]
    exact held.current (opened ▸ h)
  exact layoutHeld_writeLine counted t _ _ _

theorem layoutHeld_moves {r r' : Report ι} {t : ι} {before after : Pc} (held : LayoutHeld r)
    (moves : Moves r t before after r') : LayoutHeld r' := by
  cases moves with
  | info | writeWarning | writeError => exact layoutHeld_writeLine held t _ _ _
  | countWarning | countError | countCrash | awaitBlock | endSession | lockCrash | unlockCrash
  | leaveCrashBlock => exact ⟨held.ordered, held.current⟩
  | giveUp | stopMirror => exact held
  | addContext => exact layoutHeld_addContext held t _ _
  | openCrash => exact layoutHeld_openCrash held t _
  | crashLine => exact layoutHeld_crashLine held t _
  | closeCrash => exact layoutHeld_closeCrash held t
  | writeMirrored => exact layoutHeld_writeMirrored held t _
  | closeReport => exact layoutHeld_closeReport held t _

theorem layoutHeld_begun (opened : Bool) : LayoutHeld (Report.begun (ι := ι) opened) :=
  ⟨trivial, fun _ => rfl⟩

theorem layoutHeld_session [DecidableEq ι] (opened : Bool) (calls : ι → List ReportCall)
    (pump : Option ι) (choices : List (Turn ι)) :
    LayoutHeld (run (turn pump) (Session.start opened calls) choices).report :=
  session_invariant (P := fun r _ => LayoutHeld r) (layoutHeld_begun opened)
    (fun _ _ _ _ _ held moves => layoutHeld_moves held moves) pump choices

section Reading

variable {lines before after : List (ι × Entry)} {line : ι × Entry}

theorem ended_nothing (h : EveryStep layoutAfter InPlace .ended lines) : lines = [] := by
  cases lines with
  | nil => rfl
  | cons line rest =>
    obtain ⟨t, entry⟩ := line
    have here := h.1
    cases entry <;> simp [InPlace] at here

theorem past_header {layout : ReportPart} (past : layout ≠ .header)
    (h : EveryStep layoutAfter InPlace layout lines) :
    ∀ line ∈ lines, line.2.isHeading = false ∧ line.2.isContext = false := by
  induction lines generalizing layout with
  | nil => simp
  | cons line rest ih =>
    obtain ⟨t, entry⟩ := line
    obtain ⟨here, next⟩ := h
    have later : layoutAfter layout (t, entry) ≠ .header := by
      cases entry <;> first | exact past | nofun
    rw [List.forall_mem_cons]
    refine ⟨?_, ih later next⟩
    cases entry <;> first | exact ⟨rfl, rfl⟩ | exact absurd here past

theorem heading_mem {layout : ReportPart} (start : layout ≠ .events)
    (h : run layoutAfter layout lines = .events) : ∃ line ∈ lines, line.2.isHeading := by
  induction lines generalizing layout with
  | nil => exact absurd h start
  | cons line rest ih =>
    by_cases heading : line.2.isHeading
    · exact ⟨line, List.mem_cons_self, heading⟩
    · have next : layoutAfter layout line ≠ .events := by
        obtain ⟨t, entry⟩ := line
        cases entry <;> first | exact start | exact absurd rfl heading | nofun
      obtain ⟨later, mem, found⟩ := ih next h
      exact ⟨later, List.mem_cons_of_mem line mem, found⟩

theorem inPlace_at (h : EveryStep layoutAfter InPlace .header (before ++ line :: after)) :
    InPlace (run layoutAfter .header before) line ∧
      EveryStep layoutAfter InPlace (layoutAfter (run layoutAfter .header before) line) after :=
  (everyStep_append.mp h).2

theorem summary_last (h : EveryStep layoutAfter InPlace .header (before ++ line :: after))
    (summary : line.2.isSummary) : after = [] := by
  have next := (inPlace_at h).2
  obtain ⟨t, entry⟩ := line
  cases entry <;> first | exact ended_nothing next | cases summary

theorem after_events (h : EveryStep layoutAfter InPlace .header (before ++ line :: after))
    (events : line.2.isHeading ∨ line.2.isEvent) :
    ∀ later ∈ after, later.2.isHeading = false ∧ later.2.isContext = false := by
  obtain ⟨here, next⟩ := inPlace_at h
  refine past_header ?_ next
  obtain ⟨t, entry⟩ := line
  cases entry with
  | eventsHeading => nofun
  | event level category text =>
    have layout : run layoutAfter .header before = .events := here
    rw [layout]
    nofun
  | _ => rcases events with h | h <;> cases h

theorem heading_before (h : EveryStep layoutAfter InPlace .header (before ++ line :: after))
    (event : line.2.isEvent) : ∃ heading ∈ before, heading.2.isHeading := by
  have here := (inPlace_at h).1
  obtain ⟨t, entry⟩ := line
  cases entry with
  | event level category text =>
    have start : ReportPart.header ≠ .events := nofun
    exact heading_mem start here
  | _ => cases event

end Reading

end Rayman2Recomp
