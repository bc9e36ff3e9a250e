import Rayman2Recomp.ReportCounts

open Disk Runs

namespace Rayman2Recomp

section Files

variable {ι : Type}

/-- The header, one heading, the events, and one summary at the end. -/
structure WellLaidOut (lines : List (ι × Entry)) : Prop where
  summary : ∀ before line after, lines = before ++ line :: after → line.2.isSummary →
    (∀ other ∈ before, other.2.isSummary = false) ∧ after = []
  heading : ∀ before line after, lines = before ++ line :: after → line.2.isHeading →
    (∀ other ∈ before, other.2.isHeading = false) ∧
      ∀ other ∈ after, other.2.isHeading = false ∧ other.2.isContext = false
  events : ∀ before line after, lines = before ++ line :: after → line.2.isEvent →
    ∃ heading ∈ before, heading.2.isHeading

def PrintsEnough (c : Counter) (lines : List (ι × Entry)) : Prop :=
  ∀ line ∈ lines, ∀ value, line.2.printed c = some value →
    ((lines.countP fun other => c.counts other.2 : Nat) : Int) ≤ value

theorem wellLaidOut_of_layout {lines : List (ι × Entry)}
    (layout : EveryStep layoutAfter InPlace .header lines) : WellLaidOut lines := by
  refine ⟨?_, ?_, ?_⟩
  · intro before line after split summary
    subst split
    refine ⟨fun other mem => ?_, summary_last layout summary⟩
    by_contra earlier
    obtain ⟨front, back, rfl⟩ := List.append_of_mem mem
    rw [List.append_assoc] at layout
    have nothing := summary_last layout (by simpa using earlier)
    simp at nothing
  · intro before line after split heading
    subst split
    refine ⟨fun other mem => ?_, after_events layout (Or.inl heading)⟩
    by_contra earlier
    obtain ⟨front, back, rfl⟩ := List.append_of_mem mem
    rw [List.append_assoc] at layout
    have later := after_events layout (Or.inl (by simpa using earlier)) line (by simp)
    rw [later.1] at heading
    cases heading
  · intro before line after split event
    subst split
    exact heading_before layout event

theorem counterValue_small {n : Nat} (h : n < 2 ^ 31) : counterValue n = n := by
  have fits : (BitVec.ofNat 32 n).toNat = n := Nat.mod_eq_of_lt (by omega)
  rw [counterValue, BitVec.toInt_eq_toNat_of_lt (by omega), fits]

theorem printsEnough_of_held [Fintype ι] {c : Counter} {r : Report ι} {pcs : ι → Pc}
    (held : CountsHeld c r pcs) (small : r.increments c < 2 ^ 31) : PrintsEnough c r.lines := by
  intro line mem value prints
  obtain ⟨_, n, covers, printed_at, value_eq⟩ := held.printed line mem value prints
  have fits : counterValue n = n := counterValue_small (by omega)
  rw [value_eq, fits]
  exact Int.ofNat_le.mpr covers

end Files

/-- Every interleaving leaves the file in order, and a summary counts no fewer
lines than the file has while a counter has not passed 2^31. -/
theorem report_well_formed {ι : Type} [Fintype ι] [DecidableEq ι] (opened : Bool)
    (calls : ι → List ReportCall) (pump : Option ι) (choices : List (Turn ι)) :
    WellLaidOut (run (turn pump) (Session.start opened calls) choices).report.lines ∧
      ∀ c, (run (turn pump) (Session.start opened calls) choices).report.increments c < 2 ^ 31 →
        PrintsEnough c (run (turn pump) (Session.start opened calls) choices).report.lines := by
  refine ⟨wellLaidOut_of_layout (layoutHeld_session opened calls pump choices).ordered, ?_⟩
  intro c small
  exact printsEnough_of_held (countsHeld_session c opened calls pump choices) small

structure Logged (s : Session Unit) (rest : List ReportCall) (n : Nat) : Prop where
  pc : s.pc () = .idle
  calls : s.calls () = rest
  isOpen : s.report.isOpen = true
  ending : s.report.ending = false
  errors : s.report.errors = n
  counted : s.report.counted .errors = n

theorem logged_error {s : Session Unit} {rest : List ReportCall} {n : Nat}
    (logged : Logged s (.error [] [] :: rest) n) :
    Logged (run (turn none) s [⟨(), false⟩, ⟨(), false⟩]) rest (n + 1) := by
  obtain ⟨pc, calls, isOpen, ending, errors, counted⟩ := logged
  have opened : (countError s.report).isOpen := isOpen
  have next : run (turn none) s [⟨(), false⟩, ⟨(), false⟩] =
      ⟨writeLine (countError s.report) () .error [] [],
        Function.update (Function.update s.pc () (.writeError [] [])) () .idle,
        Function.update s.calls () rest⟩ := by
    simp [run, turn, stepThread, pc, calls, ReportCall.waits, enterCall, Session.goto, formatted]
  rw [next, writeLine_open opened]
  refine ⟨by simp, by simp, isOpen, ending, congrArg (· + 1) errors, ?_⟩
  have lines : s.report.lines.countP (fun line => Counter.errors.counts line.2) = n := counted
  have line : (lineEntries s.report.headerOpen .error [] []).countP Counter.errors.counts = 1 :=
    countP_lineEntries _ _ _ _
  simp only [Report.counted, Report.append, countError, List.countP_append, List.countP_map,
    lines, Nat.add_left_cancel_iff]
  exact line

theorem logged_errors {s : Session Unit} {rest : List ReportCall} {n : Nat} (k : Nat)
    (logged : Logged s (List.replicate k (.error [] []) ++ rest) n) :
    Logged (run (turn none) s (List.replicate (2 * k) ⟨(), false⟩)) rest (n + k) := by
  induction k generalizing s n with
  | zero => exact logged
  | succ k ih =>
    have turns : List.replicate (2 * (k + 1)) (⟨(), false⟩ : Turn Unit) =
        [⟨(), false⟩, ⟨(), false⟩] ++ List.replicate (2 * k) ⟨(), false⟩ := rfl
    rw [turns, run_append, Nat.add_comm k 1, ← Nat.add_assoc]
    exact ih (logged_error logged)

theorem logged_summary {s : Session Unit} {n : Nat} (logged : Logged s [.endSession true] n) :
    ∃ warnings crashes nothingWrong,
      (run (turn none) s (List.replicate 3 ⟨(), false⟩)).report.lines =
        s.report.lines ++ [((), .summary (counterValue n) warnings crashes true nothingWrong)] := by
  obtain ⟨pc, calls, isOpen, ending, errors, -⟩ := logged
  simp [run, turn, stepThread, pc, calls, ReportCall.waits, enterCall, Session.goto, closeReport,
    ending, isOpen, errors, Report.append]

/-- A session of `n` errors prints its counter, whatever that has come to. -/
theorem errors_printed (n : Nat)
    (enough : PrintsEnough .errors (run (turn none)
      (Session.start true fun _ => List.replicate n (.error [] []) ++ [.endSession true])
      (List.replicate (2 * n) ⟨(), false⟩ ++ List.replicate 3 ⟨(), false⟩)).report.lines) :
    (n : Int) ≤ counterValue n := by
  have start : Logged
      (Session.start true fun _ => List.replicate n (.error [] []) ++ [.endSession true])
      (List.replicate n (.error [] []) ++ [.endSession true]) 0 := ⟨rfl, rfl, rfl, rfl, rfl, rfl⟩
  have logged := logged_errors n start
  rw [Nat.zero_add] at logged
  obtain ⟨warnings, crashes, nothingWrong, lines⟩ := logged_summary logged
  rw [run_append, lines] at enough
  have printed := enough _ (List.mem_append_right _ List.mem_cons_self) (counterValue n) rfl
  have counted := logged.counted
  rw [Report.counted] at counted
  rw [List.countP_append, counted] at printed
  simpa [Counter.counts] using printed

/-- The counters are 32-bit: after 2^31 errors the summary prints a negative
number of them. -/
theorem summary_wraps :
    ¬ ∀ (opened : Bool) (calls : Unit → List ReportCall) (pump : Option Unit)
      (choices : List (Turn Unit)),
      WellLaidOut (run (turn pump) (Session.start opened calls) choices).report.lines ∧
        ∀ c, PrintsEnough c
          (run (turn pump) (Session.start opened calls) choices).report.lines := by
  intro sound
  have enough := errors_printed (2 ^ 31) ((sound true _ none _).2 .errors)
  exact absurd enough (by decide)

end Rayman2Recomp
