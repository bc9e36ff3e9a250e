import Rayman2Recomp.DrawDistance
import Rayman2Recomp.Runs
import Mathlib.Tactic.Tauto

open ByteMemory Runs

namespace Rayman2Recomp

/-- A camera object, by its word-aligned address. -/
abbrev Camera := { a : Int // 4 ∣ a }

def Camera.word (c : Camera) : Int := c.val + 0x68

theorem Camera.word_apart {c d : Camera} (h : d ≠ c) : Apart d.word 4 c.word 4 := by
  obtain ⟨c, k, rfl⟩ := c
  obtain ⟨d, n, rfl⟩ := d
  have differ : 4 * n ≠ 4 * k := fun same => h (Subtype.ext same)
  unfold Apart Camera.word
  dsimp only
  omega

/-- The hooks' state, and for each camera the value the game last stored in its
word and whether the hook has run on it since. -/
structure CameraTrace (K : Type) where
  view : ViewState K
  stored : Camera → BitVec 32
  hooked : Camera → Bool

variable {K : Type}

def CameraTrace.start (v : ViewState K) : CameraTrace K :=
  ⟨v, fun c => loadWord v.rdram c.word, fun _ => false⟩

def CameraTrace.fov (s : CameraTrace K) (c : Camera) : BitVec 32 := loadWord s.view.rdram c.word

inductive CameraEvent
  | widenCameraFov (c : Camera)
  | store (c : Camera) (value : BitVec 32)

def cameraStep (e : FovSettings K) (s : CameraTrace K) : CameraEvent → CameraTrace K
  | .widenCameraFov c =>
    { s with view := widenCameraFov e s.view c.val, hooked := Function.update s.hooked c true }
  | .store c value =>
    { view := { s.view with rdram := storeWord s.view.rdram c.word value }
      stored := Function.update s.stored c value
      hooked := Function.update s.hooked c false }

/-- Every word is the game's own value or that value widened once, and widened
where the hook has run and the value is an angle. -/
def WidenedOnce (e : FovSettings K) (s : CameraTrace K) : Prop :=
  ∀ c, (s.fov c = s.stored c ∨ s.fov c = e.widened (s.stored c)) ∧
    (s.hooked c → e.isAngle (s.stored c) → s.fov c = e.widened (s.stored c))

/-- The hook finds an angle to be `last_written` exactly when it has already run
on that camera since the game last stored there. -/
def RemembersCamera (e : FovSettings K) (s : CameraTrace K) : CameraEvent → Prop
  | .widenCameraFov c => e.isAngle (s.fov c) → e.widened (s.fov c) ≠ s.fov c →
      (s.fov c = s.view.lastWritten ↔ s.hooked c)
  | .store _ _ => True

/-- What the game stored stands until the hook runs, and afterwards where it is
no angle. -/
def StoresStand (e : FovSettings K) (s : CameraTrace K) : Prop :=
  ∀ c, (s.hooked c = false ∨ e.isAngle (s.stored c) = false) → s.fov c = s.stored c

/-- The hook leaves the view as it is, or widens the camera's word and notes that it did. -/
theorem widenCameraFov_cases (e : FovSettings K) (v : ViewState K) (camera : Int) :
    widenCameraFov e v camera = v ∨
      (e.isAngle (memW v.rdram 0x68 camera) ∧ memW v.rdram 0x68 camera ≠ v.lastWritten ∧ e.forced ∧
        widenCameraFov e v camera =
          { v with
            rdram := storeWord v.rdram (camera + 0x68) (e.widened (memW v.rdram 0x68 camera))
            lastWritten := e.widened (memW v.rdram 0x68 camera)
            fovUndo := e.undo (e.widened (memW v.rdram 0x68 camera)) (memW v.rdram 0x68 camera) }) := by
  unfold widenCameraFov
  dsimp only
  split
  next => exact Or.inl rfl
  next angle =>
    split
    next => exact Or.inl rfl
    next fresh =>
      split
      next forced => exact Or.inr ⟨by simpa using angle, fresh, forced, rfl⟩
      next => exact Or.inl rfl

theorem fov_widen_same {e : FovSettings K} (forced : e.forced) (s : CameraTrace K) (c : Camera) :
    (cameraStep e s (.widenCameraFov c)).fov c =
      if e.isAngle (s.fov c) ∧ s.fov c ≠ s.view.lastWritten then e.widened (s.fov c)
      else s.fov c := by
  unfold cameraStep widenCameraFov CameraTrace.fov memW Camera.word
  cases angle : e.isAngle (loadWord s.view.rdram (c.val + 0x68)) with
  | false => simp [angle]
  | true =>
    by_cases last : loadWord s.view.rdram (c.val + 0x68) = s.view.lastWritten
    · simp [last]
    · simp [angle, last, forced]

theorem fov_widen_other (e : FovSettings K) (s : CameraTrace K) {c d : Camera} (h : d ≠ c) :
    (cameraStep e s (.widenCameraFov c)).fov d = s.fov d := by
  have apart : Apart (c.val + 0x68) 4 d.word 4 := Camera.word_apart (Ne.symm h)
  unfold cameraStep CameraTrace.fov
  rcases widenCameraFov_cases e s.view c.val with same | ⟨-, -, -, widened⟩
  · simp only [same]
  · simp only [widened]
    exact loadWord_storeWord_apart apart

theorem fov_store_same (e : FovSettings K) (s : CameraTrace K) (c : Camera) (value : BitVec 32) :
    (cameraStep e s (.store c value)).fov c = value := loadWord_storeWord_same _ _ _

theorem fov_store_other (e : FovSettings K) (s : CameraTrace K) {c d : Camera} (h : d ≠ c)
    (value : BitVec 32) : (cameraStep e s (.store c value)).fov d = s.fov d :=
  loadWord_storeWord_apart (Camera.word_apart (Ne.symm h))

/-- One camera's part of `WidenedOnce` and `StoresStand`. -/
def FovHeld (e : FovSettings K) (word stored : BitVec 32) (hooked : Bool) : Prop :=
  word = if hooked ∧ e.isAngle stored then e.widened stored else stored

theorem fovHeld_iff {e : FovSettings K} {s : CameraTrace K} (stand : StoresStand e s) :
    WidenedOnce e s ↔ ∀ c, FovHeld e (s.fov c) (s.stored c) (s.hooked c) := by
  refine forall_congr' fun c => ?_
  unfold FovHeld
  have stood := stand c
  cases hooked : s.hooked c <;> cases angle : e.isAngle (s.stored c) <;>
    simp_all

theorem storesStand_step {e : FovSettings K} {s : CameraTrace K} (forced : e.forced)
    (stand : StoresStand e s) (a : CameraEvent) : StoresStand e (cameraStep e s a) := by
  intro d unwidened
  cases a with
  | widenCameraFov c =>
    by_cases h : d = c
    · subst d
      have angle : e.isAngle (s.stored c) = false := by simpa [cameraStep] using unwidened
      have stood := stand c (Or.inr angle)
      rw [fov_widen_same forced, stood, angle, if_neg (by simp)]
      rfl
    · rw [fov_widen_other e s h]
      exact stand d (by simpa [cameraStep, h] using unwidened)
  | store c value =>
    by_cases h : d = c
    · subst d
      rw [fov_store_same]
      simp [cameraStep]
    · rw [fov_store_other e s h]
      simp only [cameraStep, Function.update_of_ne h] at unwidened ⊢
      exact stand d unwidened

theorem fovHeld_widen_iff {e : FovSettings K} {word stored : BitVec 32} {hooked : Bool}
    (held : FovHeld e word stored hooked) (last : BitVec 32) :
    FovHeld e (if e.isAngle word ∧ word ≠ last then e.widened word else word) stored true ↔
      (e.isAngle word → e.widened word ≠ word → (word = last ↔ hooked)) := by
  unfold FovHeld at held ⊢
  cases angle : e.isAngle stored with
  | false =>
    have same : word = stored := by simpa [angle] using held
    simp [same, angle]
  | true =>
    cases hooked with
    | false =>
      -- a value of the game's own, which the hook must not take for its last one
      have same : word = stored := by simpa using held
      subst stored
      by_cases last_seen : word = last
      · subst last
        simp [angle, eq_comm (a := word)]
      · simp [angle, last_seen]
    | true =>
      have same : word = e.widened stored := by simpa [angle] using held
      simp only [and_self, if_true, ← same]
      by_cases again : e.isAngle word ∧ word ≠ last
      · rw [if_pos again]
        constructor
        · exact fun fixed _ moved => absurd fixed moved
        · intro remembers
          by_contra moved
          exact again.2 ((remembers again.1 moved).mpr trivial)
      · rw [if_neg again]
        tauto

def Held (e : FovSettings K) (s : CameraTrace K) : Prop :=
  ∀ c, FovHeld e (s.fov c) (s.stored c) (s.hooked c)

theorem held_step_iff {e : FovSettings K} {s : CameraTrace K} (forced : e.forced) (held : Held e s)
    (a : CameraEvent) : Held e (cameraStep e s a) ↔ RemembersCamera e s a := by
  cases a with
  | widenCameraFov c =>
    have here := fovHeld_widen_iff (held c) s.view.lastWritten
    rw [← fov_widen_same forced] at here
    rw [RemembersCamera, ← here]
    constructor
    · intro after
      simpa [cameraStep] using after c
    · intro after d
      by_cases h : d = c
      · subst d
        simpa [cameraStep] using after
      · rw [fov_widen_other e s h]
        simpa [cameraStep, h] using held d
  | store c value =>
    refine iff_of_true (fun d => ?_) trivial
    by_cases h : d = c
    · subst d
      rw [fov_store_same]
      simp [cameraStep, FovHeld]
    · rw [fov_store_other e s h]
      simpa [cameraStep, h] using held d

/-- A run widens every camera's field of view exactly once if and only if the
one word the hook remembers always tells it whose value it found. -/
theorem widened_once_iff {e : FovSettings K} (forced : e.forced) (v : ViewState K)
    (es : List CameraEvent) :
    (∀ before, before <+: es →
      WidenedOnce e (run (cameraStep e) (CameraTrace.start v) before)) ↔
      EveryStep (cameraStep e) (RemembersCamera e) (CameraTrace.start v) es := by
  have stand : ∀ before, StoresStand e (run (cameraStep e) (CameraTrace.start v) before) :=
    run_invariant (motive := StoresStand e) (fun _ _ => rfl)
      fun s a holds => storesStand_step forced holds a
  have held : Held e (CameraTrace.start v) := fun c => rfl
  have within := everyPrefix_iff_everyStep (P := Held e)
    (fun s a h => held_step_iff forced h a) held es
  rw [← within]
  exact forall₂_congr fun before _ => fovHeld_iff (stand before)

/-- `RAYMAN2_FOV=2`. Doubling an angle adds one to the exponent of its pattern;
factors are in units of 2^-23, and the one here is that of 1.0f. -/
def doubled : FovSettings Int where
  forced := true
  narrowing := true
  rdramKnown := true
  isAngle fov := 0x3D4CCCCD#32 < fov ∧ fov < 0x40400000#32
  widened fov := fov + 0x00800000#32
  undo _ _ := 23914376
  one := 0x800000
  narrowed raw k :=
    if -0x40000000000000 < raw.toInt * k ∧ raw.toInt * k < 0x40000000000000 then
      some (BitVec.ofInt 32 ((raw.toInt * k).tdiv 0x800000))
    else none
  farPlane _ := none

def cameraA : Camera := ⟨-0x7FF00000, by decide⟩
def cameraB : Camera := ⟨-0x7FEFFF00, by decide⟩

/-- Fields of view 1.0f and 1.25f, each widened, and the first widened again. -/
def twoCameras : List CameraEvent :=
  [.store cameraA 0x3F800000, .store cameraB 0x3FA00000, .widenCameraFov cameraA,
    .widenCameraFov cameraB, .widenCameraFov cameraA]

theorem two_cameras_compound : ¬WidenedOnce doubled
    (run (cameraStep doubled) (CameraTrace.start (ViewState.start doubled fun _ => 0)) twoCameras) := by
  intro held
  have once := (held cameraA).1
  revert once
  decide

theorem one_camera_widened_once :
    WidenedOnce doubled (run (cameraStep doubled)
      (CameraTrace.start (ViewState.start doubled fun _ => 0))
      [.store cameraA 0x3F800000, .widenCameraFov cameraA, .widenCameraFov cameraA]) := by
  have remembers : EveryStep (cameraStep doubled) (RemembersCamera doubled)
      (CameraTrace.start (ViewState.start doubled fun _ => 0))
      [.store cameraA 0x3F800000, .widenCameraFov cameraA, .widenCameraFov cameraA] :=
    ⟨trivial, fun _ _ => by decide, fun _ _ => by decide, trivial⟩
  exact (widened_once_iff rfl (ViewState.start doubled fun _ => 0) _).mpr remembers _
    List.prefix_rfl

end Rayman2Recomp
