import Rayman2Recomp.FramePacing
import Rayman2Recomp.Spacing

open Runs Spacing

namespace Rayman2Recomp

variable {p : Pacer} {s : Pacing} {call : PaceCall} {calls : List PaceCall} {field : Int}

/-- A completion lies in the field its frame is held for, or the margin before it. -/
def InField (p : Pacer) (field : Int) (paced : Paced) : Prop :=
  p.origin + field * paced.lastField - p.margin ≤ paced.completed ∧
    paced.completed < p.origin + field * (paced.lastField + 1)

theorem inField_gated (p : Pacer) (field_pos : 0 < field) (lastField now : Int) :
    InField p field ⟨now, field, p.origin + field * p.target lastField field now - p.margin,
      p.target lastField field now⟩ := by
  have target := nowField_le_target p lastField field now
  have margin := p.margin_nonneg
  have clock := (nowField_bounds p field_pos now).2.1
  have grid : field * (p.nowField field now + 1) ≤ field * (p.target lastField field now + 1) :=
    mul_le_mul_of_nonneg_left (by omega) field_pos.le
  refine ⟨le_max_right _ _, max_lt (by linarith) ?_⟩
  rw [mul_add, mul_one]
  linarith

structure CapHeld (p : Pacer) (field : Int) (s : Pacing) : Prop where
  running : s.faulted = false
  spaced : Spaced p.fields 0 (s.paced.map Paced.lastField)
  last : ∀ last, (s.paced.map Paced.lastField).getLast? = some last →
    last = s.lastField ∧ 0 ≤ last
  inField : ∀ paced ∈ s.paced, InField p field paced

theorem capHeld_start (p : Pacer) (field : Int) : CapHeld p field Pacing.start := by
  refine ⟨rfl, spaced_nil _ _, ?_, ?_⟩ <;> simp [Pacing.start]

theorem capHeld_pace (held : CapHeld p field s) (fields_pos : 0 < p.fields) (field_pos : 0 < field)
    (constant : call.attract = true → p.fieldDuration call.speed = some field) :
    CapHeld p field (p.pace s call) := by
  cases attract : call.attract with
  | false =>
    rw [pace_gate_off p s attract]
    exact held
  | true =>
    rw [pace_gated held.running attract (constant attract) fields_pos field_pos]
    refine ⟨held.running, ?_, ?_, ?_⟩
    · rw [List.map_append, List.map_singleton]
      refine spaced_snoc held.spaced fun last h => ?_
      obtain ⟨rfl, started⟩ := held.last last h
      exact target_later p started field call.now
    · intro last h
      rw [List.map_append, List.map_singleton, List.getLast?_concat] at h
      cases h
      exact ⟨rfl, target_nonneg p field_pos _ _⟩
    · intro paced mem
      rcases List.mem_append.mp mem with before | now
      · exact held.inField paced before
      · rw [List.mem_singleton.mp now]
        exact inField_gated p field_pos _ _

theorem capHeld_run (fields_pos : 0 < p.fields) (field_pos : 0 < field)
    (constant : ∀ call ∈ calls, call.attract = true → p.fieldDuration call.speed = some field) :
    CapHeld p field (run p.pace .start calls) :=
  run_induction (motive := CapHeld p field) (capHeld_start p field)
    (fun _ _ held constant => capHeld_pace held fields_pos field_pos constant)
    (everyStep_iff_forall_mem.mpr constant)

theorem paced_times (fields_pos : 0 < p.fields) (field_pos : 0 < field)
    (constant : ∀ call ∈ calls, call.attract = true → p.fieldDuration call.speed = some field) :
    (run p.pace .start calls).paced.map Paced.now =
      (calls.filter PaceCall.attract).map PaceCall.now := by
  induction calls using List.reverseRecOn with
  | nil => rfl
  | append_singleton es call ih =>
    have before : ∀ call ∈ es, call.attract = true → p.fieldDuration call.speed = some field :=
      fun call mem => constant call (List.mem_append_left _ mem)
    have running := (capHeld_run fields_pos field_pos before).running
    have here := constant call (List.mem_append_right _ List.mem_cons_self)
    rw [run_snoc, List.filter_append, List.map_append, ← ih before]
    cases attract : call.attract with
    | false =>
      rw [pace_gate_off p _ attract]
      simp [attract]
    | true =>
      rw [pace_gated running attract (here attract) fields_pos field_pos]
      simp [attract]

theorem completions_spaced (held : CapHeld p field s) (field_pos : 0 < field) :
    Spaced (p.fields * field) (field + p.margin) (s.paced.map Paced.completed) := by
  intro n m x y le hx hy
  rw [List.getElem?_map, Option.map_eq_some_iff] at hx hy
  obtain ⟨first, here, rfl⟩ := hx
  obtain ⟨second, there, rfl⟩ := hy
  have targets := held.spaced n m first.lastField second.lastField le
    (by rw [List.getElem?_map, here]; rfl) (by rw [List.getElem?_map, there]; rfl)
  have early := (held.inField first (List.mem_of_getElem? here)).2
  have late := (held.inField second (List.mem_of_getElem? there)).1
  have grid := mul_le_mul_of_nonneg_right targets field_pos.le
  have spread : (second.lastField - first.lastField + 0) * field =
      field * second.lastField - field * (first.lastField + 1) + field := by ring
  rw [spread] at grid
  rw [← mul_assoc]
  linarith

/-- A late frame is never repaid by a burst: completions keep the cap over every
window. -/
theorem frame_cap (p : Pacer) (fields_pos : 1 ≤ p.fields) (field : Int) (field_pos : 0 < field)
    (calls : List PaceCall)
    (constant : ∀ call ∈ calls, call.attract = true → p.fieldDuration call.speed = some field) :
    (run p.pace .start calls).paced.map Paced.now =
      (calls.filter PaceCall.attract).map PaceCall.now ∧
    (∀ (n m : Nat) (first second : Paced), n ≤ m →
      (run p.pace .start calls).paced[n]? = some first →
      (run p.pace .start calls).paced[m]? = some second →
      ((m : Int) - n) * p.fields * field ≤
        (second.completed - first.completed) + field + p.margin) ∧
    ∀ start extent : Int, 0 ≤ extent →
      (((run p.pace .start calls).paced.countP fun paced =>
          decide (start ≤ paced.completed ∧ paced.completed ≤ start + extent) : Nat) : Int) ≤
        1 + (extent + field + p.margin) / (p.fields * field) := by
  have held := capHeld_run fields_pos field_pos constant
  have spaced := completions_spaced held field_pos
  refine ⟨paced_times fields_pos field_pos constant, ?_, fun start extent extent_nonneg => ?_⟩
  · intro n m first second le here there
    have apart := spaced n m first.completed second.completed le
      (by rw [List.getElem?_map, here]; rfl) (by rw [List.getElem?_map, there]; rfl)
    rw [mul_assoc, add_assoc]
    exact apart
  · have gap_pos : 0 < p.fields * field := mul_pos (by omega) field_pos
    have margin := p.margin_nonneg
    have window := countP_window_le spaced gap_pos (by omega) start extent_nonneg
    rw [List.countP_map] at window
    rw [add_assoc extent]
    exact window

theorem frame_cap_thirty :
    (((run (Pacer.configured (some 30) none 0 1000000000).pace .start
        [⟨true, 1, 5⟩, ⟨false, 1, 9⟩, ⟨true, 1, 40000000⟩]).paced.countP fun paced =>
          decide (0 ≤ paced.completed ∧ paced.completed ≤ 0 + 33333332) : Nat) : Int) ≤
      1 + (33333332 + 16666666 +
        (Pacer.configured (some 30) none 0 1000000000).margin) /
          ((Pacer.configured (some 30) none 0 1000000000).fields * 16666666) :=
  (frame_cap (Pacer.configured (some 30) none 0 1000000000) (by decide) 16666666 (by decide)
    [⟨true, 1, 5⟩, ⟨false, 1, 9⟩, ⟨true, 1, 40000000⟩] (by decide)).2.2 0 33333332 (by decide)

end Rayman2Recomp
