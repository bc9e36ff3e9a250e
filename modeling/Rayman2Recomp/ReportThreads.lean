import Rayman2Recomp.DebugReport
import Rayman2Recomp.Runs
import Mathlib.Logic.Function.Basic

open Disk Runs

namespace Rayman2Recomp

/-- The calls threads make on the report. A `crash` is a whole block, from
`crash_begin` to `crash_end`; a `mirror` is one line of the pump. -/
inductive ReportCall
  | info (category message : Bytes)
  | warn (category message : Bytes)
  | error (category message : Bytes)
  | addContext (key value : Bytes)
  | crash (kind : Bytes) (texts : List Bytes)
  | mirror (line : Bytes)
  | endSession (clean : Bool)

/-- Where a thread stands inside a call: what its next atomic step is. -/
inductive Pc
  | idle
  | writeWarning (category text : Bytes)
  | writeError (category text : Bytes)
  | lockCrash (kind : Bytes) (texts : List Bytes)
  | openCrash (kind : Bytes) (texts : List Bytes)
  | crashLines (texts : List Bytes)
  | unlockCrash
  | leaveCrashBlock (line : Bytes)
  | writeMirrored (line : Bytes)
  | stopMirror (clean : Bool)
  | closeReport (clean : Bool)

structure Session (ι : Type) where
  report : Report ι
  pc : ι → Pc
  calls : ι → List ReportCall

variable {ι : Type} [DecidableEq ι]

def Session.start (opened : Bool) (calls : ι → List ReportCall) : Session ι :=
  ⟨Report.begun opened, fun _ => .idle, calls⟩

def Session.goto (s : Session ι) (t : ι) (pc : Pc) (report : Report ι) : Session ι :=
  { s with report := report, pc := Function.update s.pc t pc }

/-- The first atomic step of a call. The pump waits for `g_crash_mutex` before
each line, `late` once its wait has run out. -/
def enterCall (s : Session ι) (t : ι) (late : Bool) : ReportCall → Session ι
  | .info category message =>
    s.goto t .idle (writeLine s.report t .info category (formatted message))
  | .warn category message =>
    s.goto t (.writeWarning category (formatted message)) (countWarning s.report)
  | .error category message =>
    s.goto t (.writeError category (formatted message)) (countError s.report)
  | .addContext key value => s.goto t .idle (addContext s.report t key value)
  | .crash kind texts => s.goto t (.lockCrash kind texts) (countCrash s.report)
  | .mirror line =>
    if late then s.goto t (.writeMirrored line) s.report
    else s.goto t (.leaveCrashBlock line) { s.report with crashOwner := some t }
  | .endSession clean =>
    if s.report.ending then s
    else s.goto t (.stopMirror clean) { s.report with ending := true }

def ReportCall.waits (late : Bool) : ReportCall → Bool
  | .mirror _ => !late
  | _ => false

def finished (s : Session ι) (t : ι) : Bool :=
  match s.pc t, s.calls t with
  | .idle, [] => true
  | _, _ => false

/-- The next atomic step of a thread; one that has to wait stays where it is. -/
def stepThread (pump : Option ι) (s : Session ι) (t : ι) (late : Bool) : Session ι :=
  match s.pc t with
  | .idle =>
    match s.calls t with
    | [] => s
    | call :: rest =>
      if call.waits late && s.report.crashOwner.isSome then s
      else enterCall { s with calls := Function.update s.calls t rest } t late call
  | .writeWarning category text => s.goto t .idle (writeLine s.report t .warn category text)
  | .writeError category text => s.goto t .idle (writeLine s.report t .error category text)
  | .lockCrash kind texts =>
    if s.report.crashOwner.isSome then s
    else s.goto t (.openCrash kind texts) { s.report with crashOwner := some t }
  | .openCrash kind texts => s.goto t (.crashLines texts) (openCrash s.report t kind)
  | .crashLines (text :: texts) => s.goto t (.crashLines texts) (crashLine s.report t text)
  | .crashLines [] => s.goto t .unlockCrash (closeCrash s.report t)
  | .unlockCrash => s.goto t .idle { s.report with crashOwner := none }
  | .leaveCrashBlock line => s.goto t (.writeMirrored line) { s.report with crashOwner := none }
  | .writeMirrored line => s.goto t .idle (writeMirrored s.report t line)
  | .stopMirror clean =>
    if pump.all fun p => p = t || finished s p then s.goto t (.closeReport clean) s.report else s
  | .closeReport clean => s.goto t .idle (closeReport s.report t clean)

/-- A scheduler's choice: a thread to run, and whether a bounded wait of the
pump counts as over. -/
structure Turn (ι : Type) where
  thread : ι
  late : Bool

def turn (pump : Option ι) (s : Session ι) (choice : Turn ι) : Session ι :=
  stepThread pump s choice.thread choice.late

/-- One atomic step of a thread: where it stood, where it stands, and what it
made of the report. -/
inductive Moves (r : Report ι) (t : ι) : Pc → Pc → Report ι → Prop
  | info (category message : Bytes) :
    Moves r t .idle .idle (writeLine r t .info category (formatted message))
  | countWarning (category message : Bytes) :
    Moves r t .idle (.writeWarning category (formatted message)) (countWarning r)
  | countError (category message : Bytes) :
    Moves r t .idle (.writeError category (formatted message)) (countError r)
  | addContext (key value : Bytes) : Moves r t .idle .idle (addContext r t key value)
  | countCrash (kind : Bytes) (texts : List Bytes) :
    Moves r t .idle (.lockCrash kind texts) (countCrash r)
  | giveUp (line : Bytes) : Moves r t .idle (.writeMirrored line) r
  | awaitBlock (line : Bytes) (free : r.crashOwner = none) :
    Moves r t .idle (.leaveCrashBlock line) { r with crashOwner := some t }
  | endSession (clean : Bool) : Moves r t .idle (.stopMirror clean) { r with ending := true }
  | writeWarning (category text : Bytes) :
    Moves r t (.writeWarning category text) .idle (writeLine r t .warn category text)
  | writeError (category text : Bytes) :
    Moves r t (.writeError category text) .idle (writeLine r t .error category text)
  | lockCrash (kind : Bytes) (texts : List Bytes) (free : r.crashOwner = none) :
    Moves r t (.lockCrash kind texts) (.openCrash kind texts) { r with crashOwner := some t }
  | openCrash (kind : Bytes) (texts : List Bytes) :
    Moves r t (.openCrash kind texts) (.crashLines texts) (openCrash r t kind)
  | crashLine (text : Bytes) (texts : List Bytes) :
    Moves r t (.crashLines (text :: texts)) (.crashLines texts) (crashLine r t text)
  | closeCrash : Moves r t (.crashLines []) .unlockCrash (closeCrash r t)
  | unlockCrash : Moves r t .unlockCrash .idle { r with crashOwner := none }
  | leaveCrashBlock (line : Bytes) :
    Moves r t (.leaveCrashBlock line) (.writeMirrored line) { r with crashOwner := none }
  | writeMirrored (line : Bytes) :
    Moves r t (.writeMirrored line) .idle (writeMirrored r t line)
  | stopMirror (clean : Bool) : Moves r t (.stopMirror clean) (.closeReport clean) r
  | closeReport (clean : Bool) : Moves r t (.closeReport clean) .idle (closeReport r t clean)

/-- A turn leaves report and threads alone, or is one step of its thread. -/
def Turned (s s' : Session ι) (t : ι) : Prop :=
  (s'.report = s.report ∧ s'.pc = s.pc) ∨
    ∃ pc, Moves s.report t (s.pc t) pc s'.report ∧ s'.pc = Function.update s.pc t pc

theorem enterCall_turned (s : Session ι) (t : ι) (late : Bool) (call : ReportCall)
    (idle : s.pc t = .idle) (free : call.waits late = true → s.report.crashOwner = none) :
    Turned s (enterCall s t late call) t := by
  unfold Turned
  rw [idle]
  cases call with
  | info category message => exact Or.inr ⟨_, .info category message, rfl⟩
  | warn category message => exact Or.inr ⟨_, .countWarning category message, rfl⟩
  | error category message => exact Or.inr ⟨_, .countError category message, rfl⟩
  | addContext key value => exact Or.inr ⟨_, .addContext key value, rfl⟩
  | crash kind texts => exact Or.inr ⟨_, .countCrash kind texts, rfl⟩
  | mirror line =>
    cases late with
    | true => exact Or.inr ⟨_, .giveUp line, rfl⟩
    | false => exact Or.inr ⟨_, .awaitBlock line (free rfl), rfl⟩
  | endSession clean =>
    cases ending : s.report.ending with
    | true =>
      left
      simp [enterCall, ending]
    | false =>
      right
      refine ⟨.stopMirror clean, ?_⟩
      simp only [enterCall, ending, Bool.false_eq_true, if_false]
      exact ⟨.endSession clean, rfl⟩

theorem turned_step {s s' : Session ι} {t : ι} {before pc : Pc} (stands : s.pc t = before)
    (moves : Moves s.report t before pc s'.report) (update : s'.pc = Function.update s.pc t pc) :
    Turned s s' t := by
  subst before
  exact Or.inr ⟨pc, moves, update⟩

theorem turn_turned (pump : Option ι) (s : Session ι) (choice : Turn ι) :
    Turned s (turn pump s choice) choice.thread := by
  obtain ⟨t, late⟩ := choice
  unfold turn stepThread
  dsimp only
  cases pc : s.pc t with
  | idle =>
    dsimp only
    split
    next => exact Or.inl ⟨rfl, rfl⟩
    next call rest _ =>
      split
      next => exact Or.inl ⟨rfl, rfl⟩
      next ready =>
        refine enterCall_turned { s with calls := Function.update s.calls t rest } t late call pc ?_
        intro waits
        simpa [waits] using ready
  | writeWarning category text => exact turned_step pc (.writeWarning category text) rfl
  | writeError category text => exact turned_step pc (.writeError category text) rfl
  | lockCrash kind texts =>
    dsimp only
    split
    next => exact Or.inl ⟨rfl, rfl⟩
    next free => exact turned_step pc (.lockCrash kind texts (by simpa using free)) rfl
  | openCrash kind texts => exact turned_step pc (.openCrash kind texts) rfl
  | crashLines texts =>
    cases texts with
    | nil => exact turned_step pc (.closeCrash) rfl
    | cons text texts => exact turned_step pc (.crashLine text texts) rfl
  | unlockCrash => exact turned_step pc (.unlockCrash) rfl
  | leaveCrashBlock line => exact turned_step pc (.leaveCrashBlock line) rfl
  | writeMirrored line => exact turned_step pc (.writeMirrored line) rfl
  | stopMirror clean =>
    dsimp only
    split
    next => exact turned_step pc (.stopMirror clean) rfl
    next => exact Or.inl ⟨rfl, rfl⟩
  | closeReport clean => exact turned_step pc (.closeReport clean) rfl

/-- An invariant of the report and the threads that every step keeps holds of
every interleaving. -/
theorem session_invariant {P : Report ι → (ι → Pc) → Prop} {opened : Bool}
    {calls : ι → List ReportCall} (start : P (Report.begun opened) fun _ => .idle)
    (next : ∀ r pcs t pc r', P r pcs → Moves r t (pcs t) pc r' → P r' (Function.update pcs t pc))
    (pump : Option ι) (choices : List (Turn ι)) :
    P (run (turn pump) (Session.start opened calls) choices).report
      (run (turn pump) (Session.start opened calls) choices).pc := by
  refine run_invariant (motive := fun s : Session ι => P s.report s.pc) start (fun s choice holds => ?_) choices
  rcases turn_turned pump s choice with ⟨report, pc⟩ | ⟨pc, moves, update⟩
  · rwa [report, pc]
  · rw [update]
    exact next s.report s.pc choice.thread pc _ holds moves

end Rayman2Recomp
