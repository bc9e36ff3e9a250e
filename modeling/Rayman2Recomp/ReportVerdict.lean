import Rayman2Recomp.ReportCounts

open Disk Runs

namespace Rayman2Recomp

def Entry.isCleanSummary : Entry → Bool
  | .summary _ _ _ clean _ => clean
  | _ => false

theorem isCleanSummary_isSummary {entry : Entry} (h : entry.isCleanSummary) : entry.isSummary := by
  cases entry with
  | summary => rfl
  | _ => cases h

section Files

variable {ι : Type}

/-- A file that says `cleanly` has no crash block in it and prints no crash. -/
def HonestVerdict (lines : List (ι × Entry)) : Prop :=
  ∀ line ∈ lines, line.2.isCleanSummary →
    (∀ other ∈ lines, other.2.isBegin = false) ∧ line.2.printed .crashes = some 0

def CrashPath (calls : List ReportCall) : Prop :=
  ∃ kind texts, calls = [.crash kind texts, .endSession false]

variable {r r' : Report ι} {pcs : ι → Pc} {t : ι} {before after pc : Pc} {line : ι × Entry}

theorem counted_crashes_zero :
    r.counted .crashes = 0 ↔ ∀ other ∈ r.lines, other.2.isBegin = false := by
  simp [Report.counted, Counter.counts, List.countP_eq_zero]

theorem counterValue_zero {n : Nat} (small : n < 2 ^ 32) (h : counterValue n = 0) : n = 0 := by
  have word : BitVec.ofNat 32 n = 0#32 := BitVec.toInt_inj.mp h
  have value := congrArg BitVec.toNat word
  rw [BitVec.toNat_ofNat, Nat.mod_eq_of_lt small] at value
  exact value

theorem kept_of_wrote {entries : List Entry}
    (wrote : Wrote r r' t (if r.isOpen then entries else []))
    (plain : ∀ entry ∈ entries, entry.isSummary = false) (mem : line ∈ r'.lines)
    (clean : line.2.isCleanSummary) : line ∈ r.lines := by
  rw [wrote.lines] at mem
  rcases List.mem_append.mp mem with before | now
  · exact before
  · obtain ⟨entry, here, rfl⟩ := List.mem_map.mp now
    have summary := isCleanSummary_isSummary clean
    split at here
    next =>
      rw [plain entry here] at summary
      cases summary
    next => cases here

theorem moves_clean (moves : Moves r t before after r') (mem : line ∈ r'.lines)
    (clean : line.2.isCleanSummary) :
    line ∈ r.lines ∨ before = .closeReport true ∧ r.isOpen := by
  cases moves with
  | info | writeWarning | writeError =>
    exact Or.inl (kept_of_wrote (writeLine_wrote r t _ _ _) (lineEntries_not_summary _ _ _ _)
      mem clean)
  | countWarning | countError | countCrash | giveUp | awaitBlock | endSession | lockCrash
  | unlockCrash | leaveCrashBlock | stopMirror => exact Or.inl mem
  | addContext key value =>
    refine Or.inl (kept_of_wrote (addContext_wrote r t key value) ?_ mem clean)
    split <;> simp [Entry.isSummary]
  | openCrash kind =>
    refine Or.inl (kept_of_wrote (openCrash_wrote r t kind) ?_ mem clean)
    intro entry here
    rcases List.mem_append.mp here with marked | named
    · exact lineEntries_not_summary _ _ _ _ entry marked
    · rw [List.mem_singleton.mp named]
      rfl
  | crashLine text =>
    refine Or.inl (kept_of_wrote (crashLine_wrote r t text) ?_ mem clean)
    simp [Entry.isSummary]
  | closeCrash =>
    refine Or.inl (kept_of_wrote (closeCrash_wrote r t) ?_ mem clean)
    exact List.forall_mem_cons.mpr ⟨rfl, lineEntries_not_summary _ _ _ _⟩
  | writeMirrored text =>
    obtain ⟨lines, opened, header, _⟩ := countClassified_rest r (classify text)
    have wrote := writeLine_wrote (countClassified r (classify text)) t (classify text)
      (ascii "out") (cString text)
    rw [← lines]
    exact Or.inl (kept_of_wrote wrote (lineEntries_not_summary _ _ _ _) mem clean)
  | closeReport verdict =>
    rw [(closeReport_wrote r t verdict).lines] at mem
    rcases List.mem_append.mp mem with earlier | now
    · exact Or.inl earlier
    · obtain ⟨entry, here, rfl⟩ := List.mem_map.mp now
      split at here
      next opened =>
        rw [List.mem_singleton.mp here] at clean
        have verdict_true : verdict = true := clean
        rw [verdict_true]
        exact Or.inr ⟨rfl, opened⟩
      next => cases here

/-- No crash is owed or written before one is counted, and `cleanly` is the end
of the file. -/
structure VerdictHeld (r : Report ι) (pcs : ι → Pc) : Prop where
  owing : ∀ u, 0 < (pcs u).owes .crashes → 0 < r.crashes
  begun : 0 < r.counted .crashes → 0 < r.crashes
  closed : ∀ line ∈ r.lines, line.2.isCleanSummary → r.isOpen = false

theorem verdictHeld_begun (opened : Bool) :
    VerdictHeld (Report.begun opened) fun _ : ι => .idle := by
  refine ⟨?_, ?_, ?_⟩ <;> simp [Report.begun, Report.counted, Pc.owes]

theorem verdictHeld_moves [DecidableEq ι] (held : VerdictHeld r pcs)
    (moves : Moves r t (pcs t) pc r') : VerdictHeld r' (Function.update pcs t pc) := by
  obtain ⟨entries, pays⟩ := moves_pay (c := .crashes) moves
  have balance := pays.balance
  have grows : r.crashes ≤ r'.crashes := pays.grows
  have paid : entries.countP Counter.crashes.counts + pc.owes .crashes + r.crashes ≤
      (pcs t).owes .crashes + r'.crashes := balance
  have owing := held.owing t
  refine ⟨?_, ?_, ?_⟩
  · intro u owes
    rcases update_cases (P := fun pc => 0 < Pc.owes pc .crashes) owes with ⟨rfl, now⟩ | ⟨_, before⟩
    · omega
    · have counted := held.owing u before
      omega
  · intro counted
    have begun := held.begun
    have added : r'.counted .crashes ≤
        r.counted .crashes + entries.countP Counter.crashes.counts := by
      rw [Report.counted, pays.lines, List.countP_append, List.countP_map]
      split
      next => exact le_rfl
      next => exact Nat.le_add_right _ _
    omega
  · intro line mem clean
    cases opened : r.isOpen with
    | false => exact pays.closed opened
    | true =>
      have lines := pays.lines
      rw [if_pos opened] at lines
      rw [lines] at mem
      rcases List.mem_append.mp mem with earlier | now
      · have closed := held.closed line earlier clean
        rw [opened] at closed
        cases closed
      · obtain ⟨entry, here, rfl⟩ := List.mem_map.mp now
        cases entry with
        | summary errors warnings crashes => exact (pays.printed _ here crashes rfl).1
        | _ => cases clean

theorem honest_moves (held : VerdictHeld r pcs) (honest : HonestVerdict r.lines)
    (moves : Moves r t (pcs t) pc r')
    (uncounted : pcs t = .closeReport true → r.isOpen → r.crashes = 0) :
    HonestVerdict r'.lines := by
  cases opened : r.isOpen with
  | false =>
    obtain ⟨entries, pays⟩ := moves_pay (c := .crashes) moves
    have lines := pays.lines
    rw [opened, if_neg Bool.false_ne_true, List.map_nil, List.append_nil] at lines
    rwa [lines]
  | true =>
    intro line mem clean
    rcases moves_clean moves mem clean with earlier | ⟨closing, _⟩
    · have closed := held.closed line earlier clean
      rw [opened] at closed
      cases closed
    · have none_counted := uncounted closing opened
      have begun := held.begun
      have none_begun : r.counted .crashes = 0 := by omega
      rw [closing] at moves
      cases moves
      have lines := (closeReport_wrote r t true).lines
      rw [if_pos opened, List.map_singleton] at lines
      rw [lines] at mem ⊢
      rcases List.mem_append.mp mem with earlier | now
      · have closed := held.closed line earlier clean
        rw [opened] at closed
        cases closed
      · rw [List.mem_singleton.mp now]
        refine ⟨?_, by simp [Report.summaryEntry, Entry.printed, none_counted, counterValue]⟩
        intro other there
        rcases List.mem_append.mp there with before | last
        · exact counted_crashes_zero.mp none_begun other before
        · rw [List.mem_singleton.mp last]
          rfl

end Files

section Runs

variable {ι : Type} [DecidableEq ι]

/-- A clean ending reaches the file before the first `crash_begin`. -/
def ClosesBeforeCrashes (s : Session ι) (choice : Turn ι) : Prop :=
  s.pc choice.thread = .closeReport true → s.report.isOpen → s.report.crashes = 0

theorem verdictHeld_session (opened : Bool) (calls : ι → List ReportCall) (pump : Option ι)
    (choices : List (Turn ι)) :
    VerdictHeld (run (turn pump) (Session.start opened calls) choices).report
      (run (turn pump) (Session.start opened calls) choices).pc :=
  session_invariant (verdictHeld_begun opened)
    (fun _ _ _ _ _ held moves => verdictHeld_moves held moves) pump choices

theorem turn_crashes (pump : Option ι) (s : Session ι) (choice : Turn ι) :
    s.report.crashes ≤ (turn pump s choice).report.crashes := by
  rcases turn_turned pump s choice with ⟨report, _⟩ | ⟨pc, moves, _⟩
  · rw [report]
  · obtain ⟨entries, pays⟩ := moves_pay (c := .crashes) moves
    exact pays.grows

theorem turn_closes {pump : Option ι} {s : Session ι} {choice : Turn ι} {clean : Bool}
    (stands : s.pc choice.thread = .closeReport clean) :
    (turn pump s choice).report = closeReport s.report choice.thread clean := by
  unfold turn stepThread
  rw [stands]
  rfl

theorem closes_of_honest {pump : Option ι} {s : Session ι} {choice : Turn ι}
    (small : s.report.crashes < 2 ^ 32)
    (honest : HonestVerdict (turn pump s choice).report.lines) : ClosesBeforeCrashes s choice := by
  intro stands opened
  have lines := (closeReport_wrote s.report choice.thread true).lines
  rw [if_pos opened, List.map_singleton] at lines
  rw [turn_closes stands, lines] at honest
  obtain ⟨_, printed⟩ := honest _ (List.mem_append_right _ List.mem_cons_self) rfl
  exact counterValue_zero small (Option.some.inj printed)

theorem honest_run {opened : Bool} {calls : ι → List ReportCall} {pump : Option ι}
    {choices : List (Turn ι)}
    (closes : EveryStep (turn pump) ClosesBeforeCrashes (Session.start opened calls) choices) :
    HonestVerdict (run (turn pump) (Session.start opened calls) choices).report.lines := by
  refine run_history_induction (motive := fun _ (s : Session ι) => HonestVerdict s.report.lines)
    ?_ (fun es choice honest uncounted => ?_) closes
  · simp [HonestVerdict, Session.start, Report.begun]
  · rcases turn_turned pump (run (turn pump) (Session.start opened calls) es) choice with
      ⟨report, _⟩ | ⟨pc, moves, _⟩
    · rwa [report]
    · exact honest_moves (verdictHeld_session opened calls pump es) honest moves uncounted

theorem closes_run {opened : Bool} {calls : ι → List ReportCall} {pump : Option ι}
    {choices : List (Turn ι)}
    (small : (run (turn pump) (Session.start opened calls) choices).report.crashes < 2 ^ 32)
    (honest : ∀ before, before <+: choices →
      HonestVerdict (run (turn pump) (Session.start opened calls) before).report.lines) :
    EveryStep (turn pump) ClosesBeforeCrashes (Session.start opened calls) choices := by
  induction choices using List.reverseRecOn with
  | nil => trivial
  | append_singleton es choice ih =>
    have last := honest (es ++ [choice]) List.prefix_rfl
    rw [run_snoc] at small last
    have grows := turn_crashes pump (run (turn pump) (Session.start opened calls) es) choice
    have earlier : (run (turn pump) (Session.start opened calls) es).report.crashes < 2 ^ 32 := by
      omega
    rw [everyStep_snoc]
    refine ⟨ih earlier fun before h => honest before (h.trans (List.prefix_append es _)), ?_⟩
    exact closes_of_honest earlier last

/-- The verdict is honest throughout a run whose clean ending comes before every
crash, and, short of 2^32 crashes, in no other. -/
theorem clean_verdict (opened : Bool) (calls : ι → List ReportCall) (pump : Option ι)
    (choices : List (Turn ι)) :
    (EveryStep (turn pump) ClosesBeforeCrashes (Session.start opened calls) choices →
      ∀ before, before <+: choices →
        HonestVerdict (run (turn pump) (Session.start opened calls) before).report.lines) ∧
    ((run (turn pump) (Session.start opened calls) choices).report.crashes < 2 ^ 32 →
      (∀ before, before <+: choices →
        HonestVerdict (run (turn pump) (Session.start opened calls) before).report.lines) →
      EveryStep (turn pump) ClosesBeforeCrashes (Session.start opened calls) choices) := by
  refine ⟨fun closes before h => ?_, closes_run⟩
  obtain ⟨rest, rfl⟩ := h
  exact honest_run (everyStep_append.mp closes).1

/-- A crash block is whole in the file when main, first at the exchange, calls
the session clean. -/
theorem clean_after_crash :
    ¬ ∀ (calls : Fin 2 → List ReportCall) (choices : List (Turn (Fin 2))),
      calls 0 = [.endSession true] → CrashPath (calls 1) →
      HonestVerdict (run (turn none) (Session.start true calls) choices).report.lines := by
  intro honest
  have verdict := honest
    (fun t => if t = 0 then [.endSession true] else [.crash [] [], .endSession false])
    ([1, 1, 1, 1, 1, 0, 0, 0, 1].map fun t => ⟨t, false⟩) rfl ⟨[], [], rfl⟩
  have lines : (run (turn none) (Session.start true fun t : Fin 2 =>
      if t = 0 then [.endSession true] else [.crash [] [], .endSession false])
      ([1, 1, 1, 1, 1, 0, 0, 0, 1].map fun t => ⟨t, false⟩)).report.lines =
      [(1, .eventsHeading), (1, .event .crash (ascii "crash") beginMark), (1, .kind []),
        (1, .crashAdvice), (1, .event .crash (ascii "crash") endMark),
        (0, .summary 0 0 (counterValue 1) true false)] := by
    simp [run, turn, stepThread, enterCall, Session.start, Session.goto, ReportCall.waits,
      Report.begun, Report.append, countCrash, openCrash, closeCrash, closeReport, writeLine,
      counterValue, Function.update]
  rw [lines] at verdict
  have quiet := (verdict (0, .summary 0 0 (counterValue 1) true false) (by simp) rfl).1
    (1, .event .crash (ascii "crash") beginMark) (by simp)
  rw [Entry.isBegin, beq_self_eq_true] at quiet
  cases quiet

end Runs

end Rayman2Recomp
