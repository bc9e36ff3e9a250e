import Rayman2Recomp.DemoScan

open Runs

namespace Rayman2Recomp

variable {s : DemoScan} {samples : List SettledSample}

theorem run_fresh (fresh : s.Fresh) (busy : ∀ sample ∈ samples, sample.state = .busy) :
    run scanStep s samples = s := by
  induction samples with
  | nil => rfl
  | cons sample rest ih =>
    obtain ⟨here, later⟩ := List.forall_mem_cons.mp busy
    rw [run_cons, scanStep_fresh_busy fresh here]
    exact ih later

theorem run_snapped {ram : HostRam} (snapped : s.Snapped ram)
    (idle : ∀ sample ∈ samples, sample.state = .idle) : run scanStep s samples = s := by
  induction samples with
  | nil => rfl
  | cons sample rest ih =>
    obtain ⟨here, later⟩ := List.forall_mem_cons.mp idle
    rw [run_cons, scanStep_snapped_idle snapped here]
    exact ih later

theorem run_filter (candidates : s.haveCandidates = true) (samples : List SettledSample) :
    (run scanStep s samples).haveCandidates = true ∧
      (run scanStep s samples).candidates =
        s.candidates.filter fun c => samples.all fun sample => c.agrees sample.ram sample.state := by
  induction samples generalizing s with
  | nil => simp [candidates]
  | cons sample rest ih =>
    obtain ⟨here, filtered⟩ := scanStep_filter candidates sample
    obtain ⟨have_then, kept⟩ := ih here
    rw [run_cons]
    refine ⟨have_then, ?_⟩
    rw [kept, filtered, List.filter_filter]
    simp only [List.all_cons, Bool.and_comm]

theorem fresh_start : DemoScan.start.Fresh := ⟨rfl, rfl, rfl⟩

theorem first_idle (samples : List SettledSample) :
    (∀ sample ∈ samples, sample.state = .busy) ∨
      ∃ before idle rest, samples = before ++ idle :: rest ∧
        (∀ sample ∈ before, sample.state = .busy) ∧ idle.state = .idle := by
  induction samples with
  | nil => exact Or.inl (by simp)
  | cons sample rest ih =>
    rcases sample.idle_or_busy with idle | busy
    · exact Or.inr ⟨[], sample, rest, rfl, by simp, idle⟩
    · rcases ih with all | ⟨before, idle, after, split, busy_before, first⟩
      · exact Or.inl (List.forall_mem_cons.mpr ⟨busy, all⟩)
      · exact Or.inr ⟨sample :: before, idle, after, by rw [split]; rfl,
          List.forall_mem_cons.mpr ⟨busy, busy_before⟩, first⟩

theorem snapped_run {before between : List SettledSample} {idle : SettledSample}
    (busy_before : ∀ sample ∈ before, sample.state = .busy) (first : idle.state = .idle)
    (idle_between : ∀ sample ∈ between, sample.state = .idle) :
    (run scanStep .start (before ++ idle :: between)).Snapped idle.ram := by
  have snapped := scanStep_fresh_idle fresh_start first
  rw [run_append, run_fresh fresh_start busy_before, run_cons, run_snapped snapped idle_between]
  exact snapped

/-- A word that has changed with the state, and shows its value of each state in
every later sample. -/
def KeepsValues (idle busy : HostRam) (later : List SettledSample) (o : Nat) : Prop :=
  rawWord idle o ≠ rawWord busy o ∧ ∀ sample ∈ later,
    rawWord sample.ram o = if sample.state = .idle then rawWord idle o else rawWord busy o

theorem mem_moved {idle busy : HostRam} {c : Candidate} :
    c ∈ moved idle busy ↔ c.offset % 4 = 0 ∧ c.offset < kRamSize ∧
      c.idleValue = rawWord idle c.offset ∧ c.busyValue = rawWord busy c.offset ∧
      rawWord idle c.offset ≠ rawWord busy c.offset := by
  rw [moved, List.mem_map]
  constructor
  · rintro ⟨o, mem, rfl⟩
    obtain ⟨inside, changed⟩ := List.mem_filter.mp mem
    obtain ⟨aligned, lt⟩ := mem_wordOffsets.mp inside
    exact ⟨aligned, lt, rfl, rfl, (bne_iff_ne.mp changed).symm⟩
  · rintro ⟨aligned, lt, idle_value, busy_value, changed⟩
    refine ⟨c.offset, List.mem_filter.mpr ⟨mem_wordOffsets.mpr ⟨aligned, lt⟩, ?_⟩, ?_⟩
    · exact bne_iff_ne.mpr changed.symm
    · rw [← idle_value, ← busy_value]

theorem moved_ascending (idle busy : HostRam) :
    (moved idle busy).Pairwise fun a b => a.offset < b.offset := by
  rw [moved, List.pairwise_map]
  exact wordOffsets_ascending.filter _

/-- The candidates are the words that have kept one value for each state since
the first demo behind the first title screen; before it there are none. -/
theorem scan_candidates (samples : List SettledSample) :
    (∀ before idle between busy later, samples = before ++ idle :: (between ++ busy :: later) →
      (∀ sample ∈ before, sample.state = .busy) → idle.state = .idle →
      (∀ sample ∈ between, sample.state = .idle) → busy.state = .busy →
      ((run scanStep .start samples).candidates.Pairwise fun a b => a.offset < b.offset) ∧
      (∀ c, c ∈ (run scanStep .start samples).candidates ↔
        c.offset % 4 = 0 ∧ c.offset < kRamSize ∧ c.idleValue = rawWord idle.ram c.offset ∧
          c.busyValue = rawWord busy.ram c.offset ∧ KeepsValues idle.ram busy.ram later c.offset) ∧
      ∀ more, (run scanStep .start (samples ++ more)).candidates.Sublist
        (run scanStep .start samples).candidates) ∧
    ((∀ before after, samples = before ++ after → (∃ sample ∈ before, sample.state = .idle) →
        ∀ sample ∈ after, sample.state = .idle) →
      (run scanStep .start samples).candidates = []) := by
  refine ⟨?_, fun no_demo => ?_⟩
  · rintro before idle between busy later split busy_before first idle_between demo
    have snapped := snapped_run busy_before first idle_between
    obtain ⟨built, candidates⟩ := scanStep_snapped_busy snapped demo
    have reached : run scanStep .start samples =
        run scanStep (scanStep (run scanStep .start (before ++ idle :: between)) busy) later := by
      rw [split, ← List.cons_append, ← List.append_assoc, run_append, run_cons]
    obtain ⟨have_then, kept⟩ := run_filter built later
    rw [candidates] at kept
    refine ⟨?_, fun c => ?_, fun more => ?_⟩
    · rw [reached, kept]
      exact (moved_ascending idle.ram busy.ram).filter _
    · rw [reached, kept, List.mem_filter, mem_moved]
      simp only [List.all_eq_true, Candidate.agrees, beq_iff_eq, KeepsValues]
      constructor
      · rintro ⟨⟨aligned, lt, idle_value, busy_value, changed⟩, agrees⟩
        rw [idle_value, busy_value] at agrees
        exact ⟨aligned, lt, idle_value, busy_value, changed, agrees⟩
      · rintro ⟨aligned, lt, idle_value, busy_value, changed, agrees⟩
        refine ⟨⟨aligned, lt, idle_value, busy_value, changed⟩, ?_⟩
        rw [idle_value, busy_value]
        exact agrees
    · rw [run_append, reached, (run_filter have_then more).2]
      exact List.filter_sublist
  · rcases first_idle samples with all | ⟨before, idle, rest, split, busy_before, first⟩
    · rw [run_fresh fresh_start all]
      rfl
    · have idle_rest : ∀ sample ∈ rest, sample.state = .idle :=
        no_demo (before ++ [idle]) rest (by rw [split]; simp) ⟨idle, by simp, first⟩
      have snapped := snapped_run busy_before first idle_rest
      rw [← split] at snapped
      exact snapped.2.2.1

end Rayman2Recomp
