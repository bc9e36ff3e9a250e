import Rayman2Recomp.CrashBlocks
import Mathlib.Algebra.BigOperators.Group.Finset.Piecewise
import Mathlib.Data.Fintype.Basic

open Disk Runs

namespace Rayman2Recomp

inductive Counter
  | errors
  | warnings
  | crashes

def Counter.counts : Counter → Entry → Bool
  | .errors, .event .error _ _ => true
  | .warnings, .event .warn _ _ => true
  | .crashes, entry => entry.isBegin
  | _, _ => false

def Entry.printed (entry : Entry) (c : Counter) : Option Int :=
  match entry, c with
  | .summary errors _ _ _ _, .errors => some errors
  | .summary _ warnings _ _ _, .warnings => some warnings
  | .summary _ _ crashes _ _, .crashes => some crashes
  | _, _ => none

/-- The lines a thread has counted and still has to write. -/
def Pc.owes (pc : Pc) (c : Counter) : Nat :=
  match pc, c with
  | .writeError _ _, .errors => 1
  | .writeWarning _ _, .warnings => 1
  | .lockCrash _ _, .crashes | .openCrash _ _, .crashes => 1
  | _, _ => 0

section Pays

variable {ι : Type}

def Report.increments (r : Report ι) : Counter → Nat
  | .errors => r.errors
  | .warnings => r.warnings
  | .crashes => r.crashes

def Report.counted (r : Report ι) (c : Counter) : Nat := r.lines.countP fun line => c.counts line.2

variable {r r' : Report ι} {t : ι} {before after : Pc} {entries : List Entry} {c : Counter}

theorem Wrote.increments (wrote : Wrote r r' t entries) (c : Counter) :
    r'.increments c = r.increments c := by
  cases c with
  | errors => exact wrote.errors
  | warnings => exact wrote.warnings
  | crashes => exact wrote.crashes

/-- Every counted line a step writes was counted before, and a summary prints the
counter as it is then. -/
structure Pays (c : Counter) (r r' : Report ι) (t : ι) (before after : Pc) (entries : List Entry) :
    Prop where
  lines : r'.lines = r.lines ++ (if r.isOpen then entries else []).map fun entry => (t, entry)
  closed : r.isOpen = false → r'.isOpen = false
  balance : entries.countP c.counts + after.owes c + r.increments c ≤
    before.owes c + r'.increments c
  grows : r.increments c ≤ r'.increments c
  printed : ∀ entry ∈ entries, ∀ value, entry.printed c = some value →
    r'.isOpen = false ∧ value = counterValue (r'.increments c)

theorem pays_silent (lines : r'.lines = r.lines) (same_open : r'.isOpen = r.isOpen)
    (balance : after.owes c + r.increments c ≤ before.owes c + r'.increments c)
    (grows : r.increments c ≤ r'.increments c) : Pays c r r' t before after [] := by
  refine ⟨?_, fun h => same_open.trans h, ?_, grows, ?_⟩
  · simp [lines]
  · simpa using balance
  · simp

theorem printed_none {entry : Entry} (h : entry.isSummary = false) : entry.printed c = none := by
  cases entry with
  | summary => cases h
  | _ => cases c <;> rfl

theorem pays_wrote (wrote : Wrote r r' t (if r.isOpen then entries else []))
    (same_open : r'.isOpen = r.isOpen) (unprinted : ∀ entry ∈ entries, entry.isSummary = false)
    (balance : entries.countP c.counts + after.owes c ≤ before.owes c) :
    Pays c r r' t before after entries := by
  have same := wrote.increments c
  refine ⟨wrote.lines, fun h => same_open.trans h, by omega, by omega, fun entry mem value prints => ?_⟩
  rw [printed_none (unprinted entry mem)] at prints
  cases prints

theorem lineEntries_not_summary (headerOpen : Bool) (level : Level) (category text : Bytes) :
    ∀ entry ∈ lineEntries headerOpen level category text, entry.isSummary = false := by
  cases headerOpen <;> simp [lineEntries, Entry.isSummary]

theorem counts_heading : c.counts .eventsHeading = false := by cases c <;> rfl

theorem countP_lineEntries (headerOpen : Bool) (level : Level) (category text : Bytes) :
    (lineEntries headerOpen level category text).countP c.counts =
      if c.counts (.event level category text) then 1 else 0 := by
  cases headerOpen <;> simp [lineEntries, counts_heading, List.countP_cons]

theorem pays_writeLine (r : Report ι) (t : ι) (level : Level) (category text : Bytes)
    (settles : (if c.counts (.event level category text) then 1 else 0) + after.owes c ≤
      before.owes c) :
    Pays c r (writeLine r t level category text) t before after
      (lineEntries r.headerOpen level category text) :=
  pays_wrote (writeLine_wrote r t level category text) (writeLine_isOpen r t level category text)
    (lineEntries_not_summary _ _ _ _) (by rwa [countP_lineEntries])

theorem pays_addContext (r : Report ι) (t : ι) (key value : Bytes) :
    ∃ entries, Pays c r (addContext r t key value) t .idle .idle entries := by
  refine ⟨_, pays_wrote (addContext_wrote r t key value) (addContext_isOpen r t key value) ?_ ?_⟩
  · split <;> simp [Entry.isSummary]
  · split <;> cases c <;> simp [Counter.counts, Entry.isBegin]

theorem pays_openCrash (r : Report ι) (t : ι) (kind : Bytes) (texts : List Bytes) :
    ∃ entries, Pays c r (openCrash r t kind) t (.openCrash kind texts) (.crashLines texts)
      entries := by
  refine ⟨_, pays_wrote (openCrash_wrote r t kind) (openCrash_isOpen r t kind) ?_ ?_⟩
  · exact List.forall_mem_append.mpr ⟨lineEntries_not_summary _ _ _ _, by simp [Entry.isSummary]⟩
  · rw [List.countP_append, countP_lineEntries]
    cases c <;> simp [Counter.counts, Entry.isBegin, Pc.owes]

theorem pays_crashLine (r : Report ι) (t : ι) (text : Bytes) (texts : List Bytes) :
    ∃ entries, Pays c r (crashLine r t text) t (.crashLines (text :: texts)) (.crashLines texts)
      entries := by
  refine ⟨_, pays_wrote (crashLine_wrote r t text) (crashLine_isOpen r t text) ?_ ?_⟩
  · simp [Entry.isSummary]
  · cases c <;> simp [Counter.counts, Entry.isBegin, Pc.owes]

theorem pays_closeCrash (r : Report ι) (t : ι) :
    ∃ entries, Pays c r (closeCrash r t) t (.crashLines []) .unlockCrash entries := by
  refine ⟨_, pays_wrote (closeCrash_wrote r t) (closeCrash_isOpen r t) ?_ ?_⟩
  · exact List.forall_mem_cons.mpr ⟨rfl, lineEntries_not_summary _ _ _ _⟩
  · rw [List.countP_cons, countP_lineEntries]
    cases c <;> simp [Counter.counts, Entry.isBegin, Pc.owes, endMark_ne_beginMark]

theorem pays_writeMirrored (r : Report ι) (t : ι) (line : Bytes) :
    ∃ entries, Pays c r (writeMirrored r t line) t (.writeMirrored line) .idle entries := by
  obtain ⟨lines, opened, header, _⟩ := countClassified_rest r (classify line)
  have wrote := writeLine_wrote (countClassified r (classify line)) t (classify line) (ascii "out")
    (cString line)
  have same := wrote.increments c
  have counted : (if c.counts (.event (classify line) (ascii "out") (cString line)) then 1 else 0) +
      r.increments c ≤ (countClassified r (classify line)).increments c := by
    rcases classify_level line with level | level | level <;> rw [level] <;> cases c <;>
      simp [Counter.counts, Entry.isBegin, countClassified, countError, countWarning,
        Report.increments, Nat.add_comm]
  refine ⟨lineEntries r.headerOpen (classify line) (ascii "out") (cString line), ?_, ?_, ?_, ?_, ?_⟩
  · rw [← lines, ← opened, ← header]
    exact wrote.lines
  · intro closed
    exact (writeLine_isOpen _ t _ _ _).trans (opened.trans closed)
  · rw [countP_lineEntries]
    have owed : Pc.owes .idle c = 0 := by cases c <;> rfl
    unfold writeMirrored
    omega
  · unfold writeMirrored
    omega
  · intro entry mem value prints
    rw [printed_none (lineEntries_not_summary _ _ _ _ entry mem)] at prints
    cases prints

theorem pays_closeReport (r : Report ι) (t : ι) (clean : Bool) :
    ∃ entries, Pays c r (closeReport r t clean) t (.closeReport clean) .idle entries := by
  have wrote := closeReport_wrote r t clean
  have same := wrote.increments c
  refine ⟨_, wrote.lines, fun _ => closeReport_isOpen r t clean, ?_, same.ge, ?_⟩
  · rw [same]
    cases c <;> simp [Counter.counts, Entry.isBegin, Report.summaryEntry, Pc.owes]
  · intro entry mem value prints
    rw [List.mem_singleton] at mem
    subst mem
    refine ⟨closeReport_isOpen r t clean, ?_⟩
    rw [same]
    cases c <;> exact (Option.some.inj prints).symm

theorem moves_pay (moves : Moves r t before after r') :
    ∃ entries, Pays c r r' t before after entries := by
  cases moves with
  | info => exact ⟨_, pays_writeLine r t _ _ _ (by cases c <;> simp [Counter.counts, Entry.isBegin])⟩
  | writeWarning | writeError =>
    exact ⟨_, pays_writeLine r t _ _ _
      (by cases c <;> simp [Counter.counts, Entry.isBegin, Pc.owes])⟩
  | countWarning | countError | countCrash =>
    refine ⟨[], pays_silent rfl rfl ?_ ?_⟩ <;>
      cases c <;> simp [Pc.owes, Report.increments, countWarning, countError, countCrash,
        Nat.add_comm]
  | giveUp | awaitBlock | endSession | lockCrash | unlockCrash | leaveCrashBlock | stopMirror =>
    refine ⟨[], pays_silent rfl rfl ?_ ?_⟩ <;> cases c <;> simp [Pc.owes, Report.increments]
  | addContext => exact pays_addContext r t _ _
  | openCrash => exact pays_openCrash r t _ _
  | crashLine => exact pays_crashLine r t _ _
  | closeCrash => exact pays_closeCrash r t
  | writeMirrored => exact pays_writeMirrored r t _
  | closeReport => exact pays_closeReport r t _

end Pays

section Held

variable {ι : Type} [Fintype ι] {r r' : Report ι} {pcs : ι → Pc} {t : ι} {pc : Pc} {c : Counter}

/-- Lines written and lines owed never outnumber the increments, and a summary
printed one value of the counter that covered the file. -/
structure CountsHeld (c : Counter) (r : Report ι) (pcs : ι → Pc) : Prop where
  owed : r.counted c + ∑ t, (pcs t).owes c ≤ r.increments c
  printed : ∀ line ∈ r.lines, ∀ value, line.2.printed c = some value →
    r.isOpen = false ∧ ∃ n, r.counted c ≤ n ∧ n ≤ r.increments c ∧ value = counterValue n

theorem countsHeld_begun (c : Counter) (opened : Bool) :
    CountsHeld c (Report.begun opened) fun _ : ι => .idle := by
  refine ⟨?_, by simp [Report.begun]⟩
  cases c <;> simp [Report.begun, Report.counted, Report.increments, Pc.owes]

variable [DecidableEq ι]

theorem sum_owes_update (c : Counter) (pcs : ι → Pc) (t : ι) (pc : Pc) :
    ∑ u, (Function.update pcs t pc u).owes c + (pcs t).owes c =
      ∑ u, (pcs u).owes c + pc.owes c := by
  have update : (fun u => (Function.update pcs t pc u).owes c) =
      Function.update (fun u => (pcs u).owes c) t (pc.owes c) :=
    funext fun u => Function.apply_update (fun _ pc => Pc.owes pc c) pcs t pc u
  have all : ∑ u, (Function.update pcs t pc u).owes c =
      pc.owes c + ∑ u ∈ Finset.univ \ {t}, (pcs u).owes c := by
    rw [update, Finset.sum_update_of_mem (Finset.mem_univ t)]
  have before : ∑ u, (pcs u).owes c = (pcs t).owes c + ∑ u ∈ Finset.univ \ {t}, (pcs u).owes c :=
    Finset.sum_eq_add_sum_sdiff_singleton_of_mem (Finset.mem_univ t) _
  omega

theorem countsHeld_pays {entries : List Entry} (held : CountsHeld c r pcs)
    (pays : Pays c r r' t (pcs t) pc entries) : CountsHeld c r' (Function.update pcs t pc) := by
  have sum := sum_owes_update c pcs t pc
  have owed := held.owed
  have balance := pays.balance
  have grows := pays.grows
  have lines := pays.lines
  cases opened : r.isOpen with
  | false =>
    rw [opened, if_neg Bool.false_ne_true, List.map_nil, List.append_nil] at lines
    have same : r'.counted c = r.counted c := by rw [Report.counted, lines]; rfl
    refine ⟨by omega, fun line mem value prints => ?_⟩
    rw [lines] at mem
    obtain ⟨_, n, covers, printed_at, value_eq⟩ := held.printed line mem value prints
    exact ⟨pays.closed opened, n, by omega, by omega, value_eq⟩
  | true =>
    rw [if_pos opened] at lines
    have added : r'.counted c = r.counted c + entries.countP c.counts := by
      rw [Report.counted, lines, List.countP_append, List.countP_map]
      rfl
    refine ⟨by omega, fun line mem value prints => ?_⟩
    rw [lines] at mem
    rcases List.mem_append.mp mem with before | now
    · have closed := (held.printed line before value prints).1
      rw [opened] at closed
      cases closed
    · obtain ⟨entry, here, rfl⟩ := List.mem_map.mp now
      obtain ⟨closed, value_eq⟩ := pays.printed entry here value prints
      exact ⟨closed, r'.increments c, by omega, le_rfl, value_eq⟩

theorem countsHeld_session (c : Counter) (opened : Bool) (calls : ι → List ReportCall)
    (pump : Option ι) (choices : List (Turn ι)) :
    CountsHeld c (run (turn pump) (Session.start opened calls) choices).report
      (run (turn pump) (Session.start opened calls) choices).pc := by
  refine session_invariant (countsHeld_begun c opened) (fun r pcs t pc r' held moves => ?_) pump
    choices
  obtain ⟨entries, pays⟩ := moves_pay moves
  exact countsHeld_pays held pays

end Held

end Rayman2Recomp
