import Rayman2Recomp.Runs
import Mathlib.Tactic.Linarith

open Runs

namespace Rayman2Recomp

/-- `RAYMAN2_FRAMECAP`, in VI fields per frame; off where it is not set. -/
def fieldsPerFrame : Option Int → Int
  | none => 0
  | some asked =>
    if asked ≤ 0 then 0
    else
      let value := (60 + asked / 2) / asked
      if value < 1 then 1 else if value > 60 then 60 else value

/-- `RAYMAN2_PACEMARGIN` in milliseconds, on a clock of `hz` ticks a second. -/
def paceMargin (hz : Nat) (parsed : Option Int) : Int :=
  let ms :=
    match parsed with
    | none => 6
    | some ms => if ms < 0 then 0 else if ms > 15 then 15 else ms
  ms * hz / 1000

theorem paceMargin_nonneg (hz : Nat) (parsed : Option Int) : 0 ≤ paceMargin hz parsed := by
  have ms : 0 ≤ (match parsed with
      | none => 6
      | some ms => if ms < 0 then 0 else if ms > 15 then 15 else ms : Int) := by
    cases parsed with
    | none => decide
    | some ms =>
      dsimp only
      split
      next => exact le_rfl
      next => split <;> omega
  have ticks : (0 : Int) ≤ hz := Int.natCast_nonneg hz
  exact Int.ediv_nonneg (mul_nonneg ms ticks) (by decide)

/-- What `pace_deadline` reads once: its two settings and `get_start()`, times in
ticks of a clock that has `hz` of them a second. -/
structure Pacer where
  fields : Int
  origin : Int
  hz : Nat
  margin : Int
  margin_nonneg : 0 ≤ margin

def Pacer.configured (framecap pacemargin : Option Int) (origin : Int) (hz : Nat) : Pacer :=
  ⟨fieldsPerFrame framecap, origin, hz, paceMargin hz pacemargin, paceMargin_nonneg hz pacemargin⟩

structure PaceCall where
  attract : Bool
  speed : UInt32
  now : Int

/-- A VI field at a speed, in clock ticks. The divisor is a 32-bit product, and
where that wraps to 0 the division faults. -/
def Pacer.fieldDuration (p : Pacer) (speed : UInt32) : Option Int :=
  let divisor : UInt32 := 60 * (if speed = 0 then 1 else speed)
  if divisor = 0 then none
  else some ((1000000000 / divisor.toNat * p.hz / 1000000000 : Nat) : Int)

/-- The deadline, and the field it leaves in `last_field`. -/
def paceDeadline (p : Pacer) (lastField : Int) (call : PaceCall) : Option (Int × Int) :=
  if !call.attract then some (call.now, lastField)
  else
    match p.fieldDuration call.speed with
    | none => none
    | some field =>
      if p.fields ≤ 0 ∨ field ≤ 0 then some (call.now, lastField)
      else
        let nowField := if call.now ≤ p.origin then 0 else (call.now - p.origin).tdiv field
        let target := if lastField < 0 then nowField else lastField + p.fields
        let target := if target < nowField then nowField else target
        some (p.origin + field * target - p.margin, target)

structure Paced where
  now : Int
  field : Int
  deadline : Int
  lastField : Int
deriving DecidableEq

/-- When the frame completes: the deadline, or now if that has passed. -/
def Paced.completed (paced : Paced) : Int := max paced.now paced.deadline

/-- `last_field` and the gated calls so far. A fault ends the process. -/
structure Pacing where
  lastField : Int
  paced : List Paced
  faulted : Bool

def Pacing.start : Pacing := ⟨-1, [], false⟩

def Pacer.pace (p : Pacer) (s : Pacing) (call : PaceCall) : Pacing :=
  if s.faulted then s
  else
    match paceDeadline p s.lastField call with
    | none => { s with faulted := true }
    | some (deadline, lastField) =>
      { s with
        lastField := lastField
        paced :=
          if call.attract then
            s.paced ++ [⟨call.now, (p.fieldDuration call.speed).getD 0, deadline, lastField⟩]
          else s.paced }

theorem fieldDuration_nonneg {p : Pacer} {speed : UInt32} {field : Int}
    (h : p.fieldDuration speed = some field) : 0 ≤ field := by
  unfold Pacer.fieldDuration at h
  dsimp only at h
  generalize 60 * (if speed = 0 then 1 else speed) = divisor at h
  split at h
  next => cases h
  next =>
    cases Option.some.inj h
    exact Int.natCast_nonneg _

def Pacer.nowField (p : Pacer) (field now : Int) : Int :=
  if now ≤ p.origin then 0 else (now - p.origin).tdiv field

/-- The field a frame is held for: the schedule's next, or the one the clock is
in where that is later. -/
def Pacer.target (p : Pacer) (lastField field now : Int) : Int :=
  if lastField < 0 then p.nowField field now
  else max (lastField + p.fields) (p.nowField field now)

section Call

variable {p : Pacer} {lastField field : Int} {call : PaceCall}

theorem nowField_bounds (p : Pacer) (field_pos : 0 < field) (now : Int) :
    0 ≤ p.nowField field now ∧ now < p.origin + field * (p.nowField field now + 1) ∧
      (p.origin ≤ now → p.origin + field * p.nowField field now ≤ now) := by
  unfold Pacer.nowField
  split
  next early =>
    refine ⟨le_rfl, by linarith, fun late => by linarith⟩
  next late =>
    have elapsed : 0 ≤ now - p.origin := by omega
    rw [Int.tdiv_eq_ediv_of_nonneg elapsed]
    have below := Int.mul_ediv_self_le (x := now - p.origin) (ne_of_gt field_pos)
    have above := Int.lt_mul_ediv_self_add (x := now - p.origin) field_pos
    refine ⟨Int.ediv_nonneg elapsed field_pos.le, ?_, fun _ => by linarith⟩
    rw [mul_add, mul_one]
    linarith

theorem paceDeadline_gated (attract : call.attract = true)
    (duration : p.fieldDuration call.speed = some field) (fields_pos : 0 < p.fields)
    (field_pos : 0 < field) :
    paceDeadline p lastField call =
      some (p.origin + field * p.target lastField field call.now - p.margin,
        p.target lastField field call.now) := by
  have on : ¬ (p.fields ≤ 0 ∨ field ≤ 0) := by omega
  have target : p.target lastField field call.now =
      (if (if lastField < 0 then p.nowField field call.now else lastField + p.fields) <
          p.nowField field call.now then p.nowField field call.now
        else if lastField < 0 then p.nowField field call.now else lastField + p.fields) := by
    unfold Pacer.target
    split
    next => simp
    next =>
      split
      next later => exact max_eq_right later.le
      next later => exact max_eq_left (by omega)
  rw [target]
  unfold paceDeadline Pacer.nowField
  simp only [attract, Bool.not_true, Bool.false_eq_true, if_false, duration, on]

theorem paceDeadline_uncapped (attract : call.attract = true)
    (duration : p.fieldDuration call.speed = some field) (off : p.fields ≤ 0 ∨ field ≤ 0) :
    paceDeadline p lastField call = some (call.now, lastField) := by
  unfold paceDeadline
  simp only [attract, Bool.not_true, Bool.false_eq_true, if_false, duration, off, if_true]

theorem target_nonneg (p : Pacer) (field_pos : 0 < field) (lastField now : Int) :
    0 ≤ p.target lastField field now := by
  have here := (nowField_bounds p field_pos now).1
  unfold Pacer.target
  split
  next => exact here
  next => exact here.trans (le_max_right _ _)

theorem nowField_le_target (p : Pacer) (lastField field now : Int) :
    p.nowField field now ≤ p.target lastField field now := by
  unfold Pacer.target
  split
  next => exact le_rfl
  next => exact le_max_right _ _

theorem target_later (p : Pacer) (started : 0 ≤ lastField) (field now : Int) :
    lastField + p.fields ≤ p.target lastField field now := by
  unfold Pacer.target
  rw [if_neg (by omega)]
  exact le_max_left _ _

end Call

section Step

variable {p : Pacer} {s : Pacing} {call : PaceCall} {field : Int}

theorem pace_gate_off (p : Pacer) (s : Pacing) (off : call.attract = false) : p.pace s call = s := by
  obtain ⟨lastField, paced, faulted⟩ := s
  unfold Pacer.pace paceDeadline
  cases faulted <;> simp [off]

theorem pace_faulted (p : Pacer) (call : PaceCall) (faulted : s.faulted = true) :
    p.pace s call = s := by
  unfold Pacer.pace
  rw [if_pos faulted]

theorem pace_fault (running : s.faulted = false) (attract : call.attract = true)
    (duration : p.fieldDuration call.speed = none) :
    p.pace s call = { s with faulted := true } := by
  unfold Pacer.pace paceDeadline
  simp [running, attract, duration]

theorem pace_gated (running : s.faulted = false) (attract : call.attract = true)
    (duration : p.fieldDuration call.speed = some field) (fields_pos : 0 < p.fields)
    (field_pos : 0 < field) :
    p.pace s call =
      { s with
        lastField := p.target s.lastField field call.now
        paced := s.paced ++ [⟨call.now, field,
          p.origin + field * p.target s.lastField field call.now - p.margin,
          p.target s.lastField field call.now⟩] } := by
  unfold Pacer.pace
  rw [paceDeadline_gated attract duration fields_pos field_pos]
  simp [running, attract, duration]

theorem pace_uncapped (running : s.faulted = false) (attract : call.attract = true)
    (duration : p.fieldDuration call.speed = some field) (off : p.fields ≤ 0 ∨ field ≤ 0) :
    p.pace s call =
      { s with paced := s.paced ++ [⟨call.now, field, call.now, s.lastField⟩] } := by
  unfold Pacer.pace
  rw [paceDeadline_uncapped attract duration off]
  simp [running, attract, duration]

end Step

end Rayman2Recomp
