import Rayman2Recomp.FramePacing
import Mathlib.Tactic.Ring

open Runs

namespace Rayman2Recomp

def WithinBudget (p : Pacer) (paced : Paced) : Prop :=
  paced.deadline ≤ paced.now + p.fields * paced.field

/-- ultramodern holds the next frame until the deadline of the last. -/
def HeldBack (s : Pacing) (call : PaceCall) : Prop :=
  ∀ last, s.paced.getLast? = some last → last.deadline ≤ call.now

/-- By the grid of this call's own speed, `last_field` has come, but for the
margin. -/
def LastFieldCome (p : Pacer) (s : Pacing) (call : PaceCall) : Prop :=
  s.faulted = false → ∀ field, p.fieldDuration call.speed = some field → 0 < field →
    p.origin + field * s.lastField - p.margin ≤ call.now

section Step

variable {p : Pacer} {s : Pacing} {call : PaceCall} {field : Int}

theorem deadline_within_iff (fields_pos : 0 < p.fields) (field_pos : 0 < field) {now : Int}
    (started : p.origin ≤ now) (lastField : Int) :
    p.origin + field * p.target lastField field now - p.margin ≤ now + p.fields * field ↔
      p.origin + field * lastField - p.margin ≤ now := by
  have margin := p.margin_nonneg
  have budget : 0 < p.fields * field := mul_pos fields_pos field_pos
  obtain ⟨here_nonneg, _, here⟩ := nowField_bounds p field_pos now
  have come := here started
  by_cases first : lastField < 0
  · have target : p.target lastField field now = p.nowField field now := if_pos first
    have below : field * lastField ≤ field * 0 :=
      mul_le_mul_of_nonneg_left first.le field_pos.le
    rw [mul_zero] at below
    rw [target]
    exact ⟨fun _ => by linarith, fun _ => by linarith⟩
  · have target : p.target lastField field now =
        max (lastField + p.fields) (p.nowField field now) := if_neg first
    rw [target]
    rcases le_total (p.nowField field now) (lastField + p.fields) with early | late
    · have next : field * (lastField + p.fields) = field * lastField + p.fields * field := by ring
      rw [max_eq_left early, next]
      constructor
      · intro within
        linarith
      · intro last_come
        linarith
    · have behind : field * lastField ≤ field * p.nowField field now :=
        mul_le_mul_of_nonneg_left (by omega) field_pos.le
      rw [max_eq_right late]
      exact ⟨fun _ => by linarith, fun _ => by linarith⟩

theorem within_pace_iff (fields_pos : 0 < p.fields) (attract : call.attract = true)
    (started : p.origin ≤ call.now) :
    (∀ paced ∈ (p.pace s call).paced, WithinBudget p paced) ↔
      (∀ paced ∈ s.paced, WithinBudget p paced) ∧ LastFieldCome p s call := by
  cases faulted : s.faulted with
  | true =>
    rw [pace_faulted p call faulted]
    simp [LastFieldCome, faulted]
  | false =>
    cases duration : p.fieldDuration call.speed with
    | none =>
      rw [pace_fault faulted attract duration]
      simp [LastFieldCome, duration]
    | some field =>
      have snoc (paced : Paced) (come : WithinBudget p paced ↔ LastFieldCome p s call) :
          (∀ other ∈ s.paced ++ [paced], WithinBudget p other) ↔
            (∀ other ∈ s.paced, WithinBudget p other) ∧ LastFieldCome p s call := by
        rw [List.forall_mem_append, List.forall_mem_singleton, come]
      by_cases field_pos : 0 < field
      · rw [pace_gated faulted attract duration fields_pos field_pos]
        refine snoc _ ((deadline_within_iff fields_pos field_pos started s.lastField).trans ?_)
        constructor
        · intro come _ other same _
          rw [duration] at same
          cases same
          exact come
        · intro come
          exact come faulted field duration field_pos
      · have nonneg := fieldDuration_nonneg duration
        have zero : field = 0 := by omega
        subst field
        rw [pace_uncapped faulted attract duration (Or.inr le_rfl)]
        refine snoc _ ⟨fun _ _ other same pos => ?_, fun _ => by simp [WithinBudget]⟩
        rw [duration] at same
        cases same
        omega

/-- Behind calls at one speed: the schedule has not begun, or the last deadline is
its last field's. -/
def SteadyHeld (p : Pacer) (field : Int) (s : Pacing) : Prop :=
  s.faulted = false ∧ (s.lastField < 0 ∨ ∃ last, s.paced.getLast? = some last ∧
    last.deadline = p.origin + field * s.lastField - p.margin)

theorem lastFieldCome_of_steady (held : SteadyHeld p field s) (field_pos : 0 < field)
    (duration : p.fieldDuration call.speed = some field) (started : p.origin ≤ call.now)
    (held_back : HeldBack s call) : LastFieldCome p s call := by
  intro _ other same _
  rw [duration] at same
  cases same
  have margin := p.margin_nonneg
  rcases held.2 with first | ⟨last, found, deadline⟩
  · have below : field * s.lastField ≤ field * 0 :=
      mul_le_mul_of_nonneg_left first.le field_pos.le
    linarith
  · have waited := held_back last found
    linarith

theorem steadyHeld_pace (held : SteadyHeld p field s) (fields_pos : 0 < p.fields)
    (field_pos : 0 < field) (attract : call.attract = true)
    (duration : p.fieldDuration call.speed = some field) : SteadyHeld p field (p.pace s call) := by
  rw [pace_gated held.1 attract duration fields_pos field_pos]
  exact ⟨held.1, Or.inr ⟨_, List.getLast?_concat, rfl⟩⟩

end Step

section Runs

variable {p : Pacer} {calls : List PaceCall}

theorem within_run_iff (fields_pos : 0 < p.fields)
    (gated : ∀ call ∈ calls, call.attract = true ∧ p.origin ≤ call.now) :
    (∀ paced ∈ (run p.pace .start calls).paced, WithinBudget p paced) ↔
      EveryStep p.pace (LastFieldCome p) .start calls := by
  induction calls using List.reverseRecOn with
  | nil => simp [Pacing.start]
  | append_singleton es call ih =>
    obtain ⟨attract, started⟩ := gated call (List.mem_append_right _ List.mem_cons_self)
    have before := ih fun call mem => gated call (List.mem_append_left _ mem)
    rw [run_snoc, everyStep_snoc, within_pace_iff fields_pos attract started, before]

/-- Every frame is held for its own budget at most if and only if no call comes
before the last frame's field has come by that call's own grid. -/
theorem no_stall_iff (p : Pacer) (fields_pos : 1 ≤ p.fields) (calls : List PaceCall)
    (gated : ∀ call ∈ calls, call.attract = true ∧ p.origin ≤ call.now) :
    (∀ paced ∈ (run p.pace .start calls).paced,
        paced.deadline ≤ paced.now + p.fields * paced.field) ↔
      EveryStep p.pace (LastFieldCome p) .start calls :=
  within_run_iff fields_pos gated

theorem no_stall_iff_two_calls :
    (∀ paced ∈ (run (Pacer.configured (some 30) none 0 1000000000).pace .start
        [⟨true, 2, 0⟩, ⟨true, 1, 40000000⟩]).paced,
      paced.deadline ≤ paced.now +
        (Pacer.configured (some 30) none 0 1000000000).fields * paced.field) ↔
    EveryStep (Pacer.configured (some 30) none 0 1000000000).pace
      (LastFieldCome (Pacer.configured (some 30) none 0 1000000000)) .start
      [⟨true, 2, 0⟩, ⟨true, 1, 40000000⟩] :=
  no_stall_iff (Pacer.configured (some 30) none 0 1000000000) (by decide) _ (by decide)

/-- `last_field` counts fields of the speed it was set at: two frames at double
speed, then one at single speed, which is held for almost twice its budget. -/
theorem stall_after_slowdown :
    ¬ ∀ (p : Pacer) (calls : List PaceCall), 1 ≤ p.fields →
      (∀ call ∈ calls, call.attract = true ∧ p.origin ≤ call.now) →
      EveryStep p.pace HeldBack .start calls →
      ∀ paced ∈ (run p.pace .start calls).paced,
        paced.deadline ≤ paced.now + p.fields * paced.field := by
  intro never
  have paced : (run (Pacer.configured (some 30) none 0 1000000000).pace .start
      [⟨true, 2, 0⟩, ⟨true, 2, 0⟩, ⟨true, 1, 10666666⟩]).paced =
      [⟨0, 8333333, -6000000, 0⟩, ⟨0, 8333333, 10666666, 2⟩,
        ⟨10666666, 16666666, 60666664, 4⟩] := by decide
  have held_back : EveryStep (Pacer.configured (some 30) none 0 1000000000).pace HeldBack .start
      [⟨true, 2, 0⟩, ⟨true, 2, 0⟩, ⟨true, 1, 10666666⟩] := by
    refine ⟨fun last h => ?_, fun last h => ?_, fun last h => ?_, trivial⟩
    · cases h
    · cases h
      decide
    · cases h
      decide
  have within := never (Pacer.configured (some 30) none 0 1000000000)
    [⟨true, 2, 0⟩, ⟨true, 2, 0⟩, ⟨true, 1, 10666666⟩] (by decide) (by decide) held_back
    ⟨10666666, 16666666, 60666664, 4⟩ (by rw [paced]; simp)
  exact absurd within (by decide)

/-- At one speed a frame that is not early is never held beyond its budget. -/
theorem steady_speed_within (fields_pos : 0 < p.fields) {field : Int} (field_pos : 0 < field)
    (gated : ∀ call ∈ calls, call.attract = true ∧ p.origin ≤ call.now)
    (constant : ∀ call ∈ calls, p.fieldDuration call.speed = some field)
    (held_back : EveryStep p.pace HeldBack .start calls) :
    ∀ paced ∈ (run p.pace .start calls).paced, WithinBudget p paced := by
  rw [within_run_iff fields_pos gated]
  have steps : EveryStep p.pace (LastFieldCome p) .start calls ∧
      SteadyHeld p field (run p.pace .start calls) := by
    induction calls using List.reverseRecOn with
    | nil => exact ⟨trivial, rfl, Or.inl (show (-1 : Int) < 0 by decide)⟩
    | append_singleton es call ih =>
      obtain ⟨held_before, held_now⟩ := everyStep_snoc.mp held_back
      obtain ⟨come, held⟩ := ih
        (fun call mem => gated call (List.mem_append_left _ mem))
        (fun call mem => constant call (List.mem_append_left _ mem)) held_before
      obtain ⟨attract, started⟩ := gated call (List.mem_append_right _ List.mem_cons_self)
      have duration := constant call (List.mem_append_right _ List.mem_cons_self)
      rw [everyStep_snoc, run_snoc]
      exact ⟨⟨come, lastFieldCome_of_steady held field_pos duration started held_now⟩,
        steadyHeld_pace held fields_pos field_pos attract duration⟩
  exact steps.1

end Runs

end Rayman2Recomp
