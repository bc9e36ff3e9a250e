import Rayman2Recomp.CrashBlocks

open Disk Runs

namespace Rayman2Recomp

variable {ι : Type}

/-- The calls that begin with a line that belongs to no crash block. -/
def ReportCall.writesPlain : ReportCall → Bool
  | .info _ _ | .addContext _ _ => true
  | _ => false

def Pc.writesPlain : Pc → Bool
  | .writeWarning _ _ | .writeError _ _ | .writeMirrored _ | .closeReport _ => true
  | _ => false

/-- What the thread does next is to write an event, a context line, a mirrored line or the
summary. -/
def Session.writesPlain (s : Session ι) (t : ι) : Bool :=
  match s.pc t with
  | .idle => (s.calls t).head?.any ReportCall.writesPlain
  | pc => pc.writesPlain

/-- Such a line goes into an open report only while no thread is between the section that writes
its BEGIN and the one that writes its END. -/
def WritesOutside (s : Session ι) (choice : Turn ι) : Prop :=
  s.report.isOpen = true → s.writesPlain choice.thread = true → ∀ u, (s.pc u).inBlock = false

/-- A line of no crash block stands where none is open. -/
def PlainOutside (block : Option ι) (line : ι × Entry) : Prop :=
  line.2.isCrashLine = false → line.2.isHeading = false → block = none

/-- A section adds no lines but a crash block's own. -/
def WritesBlock (r r' : Report ι) (t : ι) : Prop :=
  ∃ entries : List Entry, r'.lines = r.lines ++ (entries.map fun entry => (t, entry)) ∧
    ∀ entry ∈ entries, entry.isCrashLine = true ∨ entry.isHeading = true

theorem writesBlock_same {r r' : Report ι} (t : ι) (lines : r'.lines = r.lines) :
    WritesBlock r r' t :=
  ⟨[], by simpa using lines, fun _ mem => absurd mem List.not_mem_nil⟩

theorem writesBlock_wrote {r r' : Report ι} {t : ι} {entries : List Entry}
    (wrote : Wrote r r' t (if r.isOpen then entries else []))
    (own : ∀ entry ∈ entries, entry.isCrashLine = true ∨ entry.isHeading = true) :
    WritesBlock r r' t := by
  refine ⟨_, wrote.lines, fun entry mem => ?_⟩
  split at mem
  next => exact own entry mem
  next => cases mem

theorem lineEntries_crash (headerOpen : Bool) (category text : Bytes) :
    ∀ entry ∈ lineEntries headerOpen .crash category text,
      entry.isCrashLine = true ∨ entry.isHeading = true := by
  cases headerOpen <;> simp [lineEntries, Entry.isCrashLine, Entry.isHeading]

theorem openCrash_block (r : Report ι) (t : ι) (kind : Bytes) :
    WritesBlock r (openCrash r t kind) t := by
  refine writesBlock_wrote (openCrash_wrote r t kind) fun entry mem => ?_
  rcases List.mem_append.mp mem with marked | last
  · exact lineEntries_crash _ _ _ entry marked
  · rw [List.mem_singleton.mp last]
    exact Or.inl rfl

theorem crashLine_block (r : Report ι) (t : ι) (text : Bytes) :
    WritesBlock r (crashLine r t text) t := by
  refine writesBlock_wrote (crashLine_wrote r t text) fun entry mem => ?_
  rw [List.mem_singleton.mp mem]
  exact Or.inl rfl

theorem closeCrash_block (r : Report ι) (t : ι) : WritesBlock r (closeCrash r t) t := by
  refine writesBlock_wrote (closeCrash_wrote r t) fun entry mem => ?_
  rcases List.mem_cons.mp mem with rfl | marked
  · exact Or.inl rfl
  · exact lineEntries_crash _ _ _ entry marked

/-- A section adds a line of no crash block, perhaps after the heading. -/
def AddsPlain (r r' : Report ι) (t : ι) : Prop :=
  ∃ front entry, (∀ e ∈ front, Entry.isCrashLine e = false) ∧ entry.isCrashLine = false ∧
    entry.isHeading = false ∧ r'.lines = r.lines ++ (front ++ [entry]).map fun e => (t, e)

theorem writeLine_adds {r : Report ι} (opened : r.isOpen = true) (t : ι) {level : Level}
    (plain : level ≠ .crash) (category text : Bytes) :
    AddsPlain r (writeLine r t level category text) t := by
  have lines := (writeLine_wrote r t level category text).lines
  rw [if_pos opened] at lines
  refine ⟨if r.headerOpen then [.eventsHeading] else [], .event level category text, ?_, ?_, rfl,
    lines⟩
  · intro e mem
    split at mem
    next =>
      rw [List.mem_singleton.mp mem]
      rfl
    next => cases mem
  · exact @lineEntries_plain false level category text plain _ List.mem_cons_self

theorem addContext_adds {r : Report ι} (opened : r.isOpen = true) (t : ι) (key value : Bytes) :
    AddsPlain r (addContext r t key value) t := by
  have lines := (addContext_wrote r t key value).lines
  rw [if_pos opened] at lines
  split at lines
  next => exact ⟨[], _, fun e mem => absurd mem List.not_mem_nil, rfl, rfl, lines⟩
  next => exact ⟨[], _, fun e mem => absurd mem List.not_mem_nil, rfl, rfl, lines⟩

theorem writeMirrored_adds {r : Report ι} (opened : r.isOpen = true) (t : ι) (line : Bytes) :
    AddsPlain r (writeMirrored r t line) t := by
  have level : classify line ≠ .crash := by
    rcases classify_level line with h | h | h <;> rw [h] <;> nofun
  obtain ⟨lines, same, _, _⟩ := countClassified_rest r (classify line)
  have adds := writeLine_adds (same.trans opened) t level (ascii "out") (cString line)
  rwa [AddsPlain, lines] at adds

theorem closeReport_adds {r : Report ι} (opened : r.isOpen = true) (t : ι) (clean : Bool) :
    AddsPlain r (closeReport r t clean) t := by
  have lines := (closeReport_wrote r t clean).lines
  rw [if_pos opened] at lines
  exact ⟨[], _, fun e mem => absurd mem List.not_mem_nil, rfl, rfl, lines⟩

theorem plain_outside {t : ι} {entries : List Entry}
    (plain : ∀ entry ∈ entries, entry.isCrashLine = false) :
    EveryStep blockAfter PlainOutside none (entries.map fun entry => (t, entry)) := by
  induction entries with
  | nil => trivial
  | cons entry rest ih =>
    rw [List.map_cons, everyStep_cons, blockAfter_plain (plain entry List.mem_cons_self)]
    exact ⟨fun _ _ => rfl, ih fun e mem => plain e (List.mem_cons_of_mem entry mem)⟩

theorem block_outside {t : ι} {entries : List Entry} {block : Option ι}
    (own : ∀ entry ∈ entries, entry.isCrashLine = true ∨ entry.isHeading = true) :
    EveryStep blockAfter PlainOutside block (entries.map fun entry => (t, entry)) := by
  induction entries generalizing block with
  | nil => trivial
  | cons entry rest ih =>
    refine ⟨fun crash heading => ?_, ih fun e mem => own e (List.mem_cons_of_mem entry mem)⟩
    rcases own entry List.mem_cons_self with h | h
    · rw [h] at crash
      cases crash
    · rw [h] at heading
      cases heading

/-- What a line of no block meets after a BEGIN whose END has not come. -/
theorem open_block_refuses {lines before middle after : List (ι × Entry)} {t : ι} {b : Entry}
    {line : ι × Entry} (ordered : EveryStep blockAfter OneBlock none lines)
    (quiet : EveryStep blockAfter PlainOutside none lines)
    (split : lines = before ++ (t, b) :: (middle ++ line :: after)) (begins : b.isBegin)
    (open_still : ∀ l ∈ middle, l.2.isEnd → l.1 ≠ t) :
    line.2.isCrashLine = true ∨ line.2.isHeading = true := by
  subst split
  have within := (everyStep_append.mp (block_begun ordered begins)).1
  have next := (everyStep_append.mp quiet).2.2
  rw [blockAfter, if_pos begins] at next
  have here := (everyStep_append.mp next).2.1
  rw [(block_stays within open_still).1] at here
  by_contra neither
  rw [not_or, Bool.not_eq_true, Bool.not_eq_true] at neither
  cases here neither.1 neither.2

variable [DecidableEq ι]

theorem enterCall_writes (s : Session ι) (t : ι) (late : Bool) (call : ReportCall) :
    (call.writesPlain = true ∧ WritesPlain s.report (enterCall s t late call).report t) ∨
      WritesBlock s.report (enterCall s t late call).report t := by
  cases call with
  | info category message =>
    have level : Level.info ≠ .crash := nofun
    exact Or.inl ⟨rfl, writeLine_plain s.report t level _ _⟩
  | addContext key value => exact Or.inl ⟨rfl, addContext_plain s.report t key value⟩
  | warn category message => exact Or.inr (writesBlock_same t rfl)
  | error category message => exact Or.inr (writesBlock_same t rfl)
  | crash kind texts => exact Or.inr (writesBlock_same t rfl)
  | mirror line => cases late <;> exact Or.inr (writesBlock_same t rfl)
  | endSession clean =>
    refine Or.inr (writesBlock_same t ?_)
    cases ending : s.report.ending <;> simp [enterCall, ending, Session.goto]

/-- A turn that adds lines of no crash block is one of a thread that was to write them. -/
theorem turn_writes (pump : Option ι) (s : Session ι) (choice : Turn ι) :
    (s.writesPlain choice.thread = true ∧
        WritesPlain s.report (turn pump s choice).report choice.thread) ∨
      WritesBlock s.report (turn pump s choice).report choice.thread := by
  obtain ⟨t, late⟩ := choice
  unfold turn stepThread Session.writesPlain
  dsimp only
  cases s.pc t with
  | idle =>
    cases s.calls t with
    | nil => exact Or.inr (writesBlock_same t rfl)
    | cons call rest =>
      dsimp only [List.head?_cons, Option.any_some]
      by_cases waits : (call.waits late && s.report.crashOwner.isSome) = true
      · rw [if_pos waits]
        exact Or.inr (writesBlock_same t rfl)
      · rw [if_neg waits]
        exact enterCall_writes { s with calls := Function.update s.calls t rest } t late call
  | writeWarning category text =>
    have level : Level.warn ≠ .crash := nofun
    exact Or.inl ⟨rfl, writeLine_plain s.report t level _ _⟩
  | writeError category text =>
    have level : Level.error ≠ .crash := nofun
    exact Or.inl ⟨rfl, writeLine_plain s.report t level _ _⟩
  | writeMirrored line => exact Or.inl ⟨rfl, writeMirrored_plain s.report t line⟩
  | closeReport clean => exact Or.inl ⟨rfl, closeReport_plain s.report t clean⟩
  | openCrash kind texts => exact Or.inr (openCrash_block s.report t kind)
  | crashLines texts =>
    cases texts with
    | nil => exact Or.inr (closeCrash_block s.report t)
    | cons text texts => exact Or.inr (crashLine_block s.report t text)
  | lockCrash kind texts =>
    dsimp only
    split <;> exact Or.inr (writesBlock_same t rfl)
  | unlockCrash => exact Or.inr (writesBlock_same t rfl)
  | leaveCrashBlock line => exact Or.inr (writesBlock_same t rfl)
  | stopMirror clean =>
    dsimp only
    split <;> exact Or.inr (writesBlock_same t rfl)

theorem turn_adds {pump : Option ι} {s : Session ι} {choice : Turn ι}
    (opened : s.report.isOpen = true) (writes : s.writesPlain choice.thread = true) :
    AddsPlain s.report (turn pump s choice).report choice.thread := by
  obtain ⟨t, late⟩ := choice
  unfold turn stepThread
  unfold Session.writesPlain at writes
  dsimp only at writes ⊢
  cases pc : s.pc t with
  | idle =>
    rw [pc] at writes
    cases calls : s.calls t with
    | nil =>
      rw [calls] at writes
      cases writes
    | cons call rest =>
      rw [calls] at writes
      cases call with
      | info category message =>
        have level : Level.info ≠ .crash := nofun
        exact writeLine_adds opened t level _ _
      | addContext key value => exact addContext_adds opened t _ _
      | _ => cases writes
  | writeWarning category text =>
    have level : Level.warn ≠ .crash := nofun
    exact writeLine_adds opened t level _ _
  | writeError category text =>
    have level : Level.error ≠ .crash := nofun
    exact writeLine_adds opened t level _ _
  | writeMirrored line => exact writeMirrored_adds opened t line
  | closeReport clean => exact closeReport_adds opened t clean
  | _ =>
    rw [pc] at writes
    cases writes

/-- One step: a line of no block is written where the state says that none is open. -/
theorem plainOutside_turn {pump : Option ι} {s : Session ι} {choice : Turn ι}
    (held : BlocksHeld s.report s.pc)
    (quiet : EveryStep blockAfter PlainOutside none s.report.lines) (here : WritesOutside s choice) :
    EveryStep blockAfter PlainOutside none (turn pump s choice).report.lines := by
  rcases turn_writes pump s choice with ⟨writes, entries, plain, lines, -, -⟩ | ⟨entries, lines, own⟩
  · rw [lines, everyStep_append]
    refine ⟨quiet, ?_⟩
    cases entries with
    | nil => trivial
    | cons first rest =>
      have opened := (plain first List.mem_cons_self).1
      have none_open : run blockAfter none s.report.lines = none := by
        cases block : run blockAfter none s.report.lines with
        | none => rfl
        | some u =>
          have inside := (held.current opened u).mp block
          rw [here opened writes u] at inside
          cases inside
      rw [none_open]
      exact plain_outside fun entry mem => (plain entry mem).2
  · rw [lines, everyStep_append]
    exact ⟨quiet, block_outside own⟩

/-- The condition is exact: what a step writes that does not meet it stands in an open block. -/
theorem plainOutside_turn_iff {pump : Option ι} {s : Session ι} {choice : Turn ι}
    (held : BlocksHeld s.report s.pc)
    (quiet : EveryStep blockAfter PlainOutside none s.report.lines) :
    EveryStep blockAfter PlainOutside none (turn pump s choice).report.lines ↔
      WritesOutside s choice := by
  refine ⟨fun after opened writes u => ?_, plainOutside_turn held quiet⟩
  by_contra inside
  have block := (held.current opened u).mpr (by simpa using inside)
  obtain ⟨front, entry, plain, crash, heading, lines⟩ :=
    @turn_adds ι _ pump s choice opened writes
  rw [lines, everyStep_append, block, List.map_append, List.map_singleton, everyStep_snoc,
    run_plain plain] at after
  cases after.2.2 crash heading

theorem blocksHeld_turn {pump : Option ι} {s : Session ι} {choice : Turn ι}
    (held : BlocksHeld s.report s.pc) :
    BlocksHeld (turn pump s choice).report (turn pump s choice).pc := by
  rcases turn_turned pump s choice with ⟨report, pc⟩ | ⟨pc, moves, update⟩
  · rwa [report, pc]
  · rw [update]
    exact blocksHeld_moves held moves

/-- Lines of no block stand outside the blocks, all the way, exactly in the runs whose steps all
meet the condition. -/
theorem plainOutside_session_iff (opened : Bool) (calls : ι → List ReportCall) (pump : Option ι)
    (choices : List (Turn ι)) :
    (∀ before, before <+: choices → EveryStep blockAfter PlainOutside none
        (run (turn pump) (Session.start opened calls) before).report.lines) ↔
      EveryStep (turn pump) WritesOutside (Session.start opened calls) choices := by
  have exact_step : ∀ (s : Session ι) (choice : Turn ι),
      (BlocksHeld s.report s.pc ∧ EveryStep blockAfter PlainOutside none s.report.lines) →
      ((BlocksHeld (turn pump s choice).report (turn pump s choice).pc ∧
          EveryStep blockAfter PlainOutside none (turn pump s choice).report.lines) ↔
        WritesOutside s choice) := by
    rintro s choice ⟨held, quiet⟩
    rw [plainOutside_turn_iff held quiet]
    exact and_iff_right (blocksHeld_turn held)
  rw [← everyPrefix_iff_everyStep (P := fun s : Session ι => BlocksHeld s.report s.pc ∧
    EveryStep blockAfter PlainOutside none s.report.lines) exact_step
    ⟨blocksHeld_begun opened, everyStep_nil⟩]
  exact forall₂_congr fun before _ =>
    (and_iff_right (blocksHeld_session opened calls pump before)).symm

end Rayman2Recomp
