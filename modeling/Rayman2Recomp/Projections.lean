import Rayman2Recomp.PendingMatrices

open ByteMemory Runs

namespace Rayman2Recomp

variable {K : Type} {l : Layout}

/-- One rebuild of a matrix: the elements it left, the projection factor its
field of view was widened by, and whether a display list has been handed over
since. -/
structure Built (K : Type) where
  value : Int → BitVec 32
  factor : Option K
  handed : Bool

structure ViewTrace (l : Layout) (K : Type) where
  cameras : CameraTrace K
  built : l.matrix → Option (Built K)

def ViewTrace.start (l : Layout) (e : FovSettings K) (rdram : Rdram) : ViewTrace l K :=
  ⟨CameraTrace.start (ViewState.start e rdram), fun _ => none⟩

def ViewTrace.pending (s : ViewTrace l K) : List (Pending K) := s.cameras.view.pending

def ViewTrace.element (s : ViewTrace l K) (a : l.matrix) (off : Int) : BitVec 32 :=
  Rayman2Recomp.element s.cameras.view.rdram a.val.toInt off

/-- The projection factor between what stands in a camera and what the game
stored there, when the two differ. -/
def CameraTrace.widening (e : FovSettings K) (s : CameraTrace K) (c : Camera) : Option K :=
  if s.fov c = s.stored c then none else some (e.undo (s.fov c) (s.stored c))

/-- A call of `guPerspective` takes its field of view from a camera or, with no
`source`, from anywhere else. -/
inductive ViewEvent (l : Layout)
  | widenCameraFov (c : l.camera)
  | store (c : l.camera) (value : BitVec 32)
  | guPerspective (a : l.matrix) (sp : l.stack) (mtx : Fin 64 → UInt8) (source : Option l.camera)
  | sendDl (renderer : Renderer)

def Built.corrected (e : FovSettings K) (b : Built K) (off : Int) : Option (BitVec 32) :=
  match b.factor with
  | none => some (b.value off)
  | some k => e.narrowed (b.value off) k

/-- Both elements of every matrix are as built until the next handover, and
from then on multiplied once by the factor, if there is one. -/
def Corrected (e : FovSettings K) (s : ViewTrace l K) : Prop :=
  ∀ a b, s.built a = some b → ∀ off ∈ elementOffsets,
    some (s.element a off) = if b.handed then b.corrected e off else some (b.value off)

/-- One matrix: what its elements are, and what the pending list owes it. -/
def MatrixHeld (e : FovSettings K) (s : ViewTrace l K) (a : l.matrix) : Option (Built K) → Prop
  | none => owed s.pending a.val = none
  | some b =>
    (∀ off ∈ elementOffsets,
      some (s.element a off) = if b.handed then b.corrected e off else some (b.value off)) ∧
    owed s.pending a.val = if b.handed then none else b.factor

structure ViewHeld (e : FovSettings K) (s : ViewTrace l K) : Prop where
  slot_empty : s.cameras.view.perspectiveMtx = 0
  aspect_off : s.cameras.view.perspectiveK = e.one
  once : (s.pending.map Pending.address).Nodup
  known : ∀ p ∈ s.pending, p.address ∈ l.matrix
  matrices : ∀ a, MatrixHeld e s a (s.built a)

theorem viewHeld_start (l : Layout) (e : FovSettings K) (rdram : Rdram) :
    ViewHeld e (ViewTrace.start l e rdram) :=
  ⟨rfl, rfl, List.nodup_nil, fun _ hp => absurd hp List.not_mem_nil, fun _ => rfl⟩

theorem corrected_of_held {e : FovSettings K} {s : ViewTrace l K} (held : ViewHeld e s) :
    Corrected e s := by
  intro a b hb off hoff
  have matrix := held.matrices a
  rw [hb] at matrix
  exact matrix.1 off hoff

theorem viewHeld_cameras {e : FovSettings K} {s : ViewTrace l K} (held : ViewHeld e s)
    {cameras : CameraTrace K}
    (same : cameras.view.perspectiveMtx = s.cameras.view.perspectiveMtx ∧
      cameras.view.perspectiveK = s.cameras.view.perspectiveK ∧
      cameras.view.pending = s.cameras.view.pending)
    (rdram : ∀ a ∈ l.matrix, ∀ off ∈ elementOffsets,
      element cameras.view.rdram a.toInt off = element s.cameras.view.rdram a.toInt off) :
    ViewHeld e { s with cameras := cameras } := by
  obtain ⟨mtx, aspect, pending⟩ := same
  have entries : ViewTrace.pending { s with cameras := cameras } = s.pending := pending
  refine ⟨mtx.trans held.slot_empty, aspect.trans held.aspect_off, ?_, ?_, fun a => ?_⟩
  · rw [entries]
    exact held.once
  · rw [entries]
    exact held.known
  · have before := held.matrices a
    unfold MatrixHeld at before ⊢
    rw [entries]
    cases hb : s.built a with
    | none => simpa [hb] using before
    | some b =>
      rw [hb] at before
      refine ⟨fun off hoff => ?_, before.2⟩
      rw [← before.1 off hoff]
      exact congrArg some (rdram a.val a.property off hoff)

theorem element_storeWord {m : Rdram} {a : BitVec 32} {x : Int} {v : BitVec 32} {off : Int}
    (apart : Apart x 4 a.toInt 64) (h : off ∈ elementOffsets) :
    element (storeWord m x v) a.toInt off = element m a.toInt off := by
  refine element_congr fun y inside => storeWord_outside ?_
  have := element_inside h inside
  unfold Apart at apart
  omega

variable [DecidableEq K]

/-- The factor a call's field of view was widened by. A factor of one changes
nothing. -/
def ViewTrace.sourceFactor (e : FovSettings K) (s : ViewTrace l K) (source : Option l.camera) :
    Option K :=
  (source.bind fun c => s.cameras.widening e c.val).filter fun k => k ≠ e.one

def viewStep (e : FovSettings K) (s : ViewTrace l K) : ViewEvent l → ViewTrace l K
  | .widenCameraFov c => { s with cameras := cameraStep e s.cameras (.widenCameraFov c.val) }
  | .store c value => { s with cameras := cameraStep e s.cameras (.store c.val value) }
  | .guPerspective a sp mtx source =>
    let view := guPerspective e s.cameras.view a.val sp.val mtx
    { cameras := { s.cameras with view := view }
      built := Function.update s.built a
        (some ⟨element view.rdram a.val.toInt, s.sourceFactor e source, false⟩) }
  | .sendDl renderer =>
    { cameras := { s.cameras with view := sendDl e s.cameras.view renderer }
      built := fun a => (s.built a).map fun b => { b with handed := true } }

/-- A widened matrix is noted with its own factor, an unwidened one is not
noted, and the list goes through the context that narrows, with no product out
of range. -/
def Narrows (e : FovSettings K) (s : ViewTrace l K) : ViewEvent l → Prop
  | .widenCameraFov _ | .store _ _ => True
  | .guPerspective a _ _ source =>
    match s.sourceFactor e source with
    | some k => s.cameras.view.fovUndo = k ∧ a.val ≠ 0 ∧
        (owed s.pending a.val ≠ none ∨ s.pending.length < 16)
    | none => owed s.pending a.val = none ∧
        (s.cameras.view.fovUndo = e.one ∨ a.val = 0 ∨ 16 ≤ s.pending.length)
  | .sendDl .widescreenCulling => ∀ p ∈ s.pending, ∀ off ∈ elementOffsets,
      (e.narrowed (element s.cameras.view.rdram p.address.toInt off) p.factor).isSome
  | .sendDl .rt64 => s.pending = []

theorem scaleDrawDistance_rest (e : FovSettings K) (v : ViewState K) (r4 : BitVec 32) (sp : Int) :
    (scaleDrawDistance e v r4 sp).perspectiveMtx =
        (if v.fovUndo ≠ e.one then r4 else v.perspectiveMtx) ∧
      (scaleDrawDistance e v r4 sp).perspectiveK = v.perspectiveK ∧
      (scaleDrawDistance e v r4 sp).fovUndo = v.fovUndo ∧
      (scaleDrawDistance e v r4 sp).pending = v.pending := by
  unfold scaleDrawDistance
  dsimp only
  split <;> split <;> exact ⟨rfl, rfl, rfl, rfl⟩

theorem scaleDrawDistance_element {e : FovSettings K} {v : ViewState K} {r4 a : BitVec 32}
    {sp off : Int} (apart : Apart (sp + 0x14) 4 a.toInt 64) (h : off ∈ elementOffsets) :
    element (scaleDrawDistance e v r4 sp).rdram a.toInt off = element v.rdram a.toInt off := by
  have marked : ∀ m, (if v.fovUndo ≠ e.one then { v with perspectiveMtx := m } else v).rdram =
      v.rdram := by
    intro m
    split <;> rfl
  unfold scaleDrawDistance
  dsimp only
  split
  next => rw [marked]
  next => rw [element_storeWord apart h, marked]

/-- What a whole call leaves behind: the matrix is noted under the present
factor, if that is not one. -/
theorem guPerspective_spec {e : FovSettings K} {v : ViewState K} (slot_empty : v.perspectiveMtx = 0)
    (aspect_off : v.perspectiveK = e.one) (r4 : BitVec 32) (sp : Int) (mtx : Fin 64 → UInt8) :
    (guPerspective e v r4 sp mtx).perspectiveMtx = 0 ∧
      (guPerspective e v r4 sp mtx).perspectiveK = e.one ∧
      (guPerspective e v r4 sp mtx).pending =
        (if v.fovUndo = e.one ∨ r4 = 0 then v.pending else notePending v.pending r4 v.fovUndo) ∧
      (guPerspective e v r4 sp mtx).rdram =
        storeBytes (scaleDrawDistance e v r4 sp).rdram r4.toInt mtx := by
  obtain ⟨slot, aspect, undo, pending⟩ := scaleDrawDistance_rest e v r4 sp
  unfold guPerspective recordProjectionMatrix
  dsimp only
  rw [slot, aspect, undo, pending, slot_empty, aspect_off]
  by_cases unchanged : v.fovUndo = e.one
  · simp [unchanged]
  · by_cases null : r4 = 0
    · simp only [ne_eq, not_true_eq_false, unchanged, null, not_false_eq_true, if_true, if_false,
        or_true, and_self]
    · simp only [ne_eq, not_true_eq_false, unchanged, null, not_false_eq_true, if_true, if_false,
        or_self, and_self]

theorem guPerspective_element {e : FovSettings K} {v : ViewState K} {r4 a : BitVec 32} {sp off : Int}
    {mtx : Fin 64 → UInt8} (slot_empty : v.perspectiveMtx = 0) (aspect_off : v.perspectiveK = e.one)
    (matrices : Apart r4.toInt 64 a.toInt 64) (stack : Apart (sp + 0x14) 4 a.toInt 64)
    (h : off ∈ elementOffsets) :
    element (guPerspective e v r4 sp mtx).rdram a.toInt off = element v.rdram a.toInt off := by
  rw [(guPerspective_spec slot_empty aspect_off r4 sp mtx).2.2.2, ← scaleDrawDistance_element stack h]
  refine element_congr fun x inside => storeBytes_outside ?_
  have := element_inside h inside
  unfold Apart at matrices
  omega

/-- The pending list after a call: no matrix stands on it twice, and the others
are owed what they were. -/
theorem notePending_held {pending : List (Pending K)} {mtx : BitVec 32} {k one : K}
    (once : (pending.map Pending.address).Nodup) (known : ∀ p ∈ pending, p.address ∈ l.matrix)
    (ha : mtx ∈ l.matrix) {after : List (Pending K)}
    (h : after = if k = one ∨ mtx = 0 then pending else notePending pending mtx k) :
    (after.map Pending.address).Nodup ∧ (∀ p ∈ after, p.address ∈ l.matrix) ∧
      ∀ a, a ≠ mtx → owed after a = owed pending a := by
  split at h
  next => subst h; exact ⟨once, known, fun _ _ => rfl⟩
  next =>
    subst h
    refine ⟨?_, fun p hp => ?_, fun a differ => owed_notePending_other differ k⟩
    · rcases notePending_address pending mtx k with same | ⟨fresh, more⟩
      · rwa [same]
      · rw [more]
        exact List.nodup_append.mpr ⟨once, List.nodup_singleton mtx, by
          intro a ha b hb same
          rw [List.mem_singleton.mp hb] at same
          exact fresh (same ▸ ha)⟩
    · have mem : p.address ∈ (notePending pending mtx k).map Pending.address :=
        List.mem_map_of_mem hp
      rcases notePending_address pending mtx k with same | ⟨_, more⟩
      · rw [same] at mem
        obtain ⟨q, hq, address⟩ := List.mem_map.mp mem
        exact address ▸ known q hq
      · rw [more, List.mem_append, List.mem_singleton] at mem
        rcases mem with mem | same
        · obtain ⟨q, hq, address⟩ := List.mem_map.mp mem
          exact address ▸ known q hq
        · exact same ▸ ha

theorem sourceFactor_ne_one {e : FovSettings K} {s : ViewTrace l K} {source : Option l.camera}
    {k : K} (h : s.sourceFactor e source = some k) : k ≠ e.one := by
  have kept := (Option.filter_eq_some_iff.mp h).2
  simpa using kept

/-- After a call the list owes the matrix the factor its field of view was
widened by. -/
theorem owed_guPerspective {e : FovSettings K} {s : ViewTrace l K} {a : l.matrix} {sp : l.stack}
    {mtx : Fin 64 → UInt8} {source : Option l.camera}
    (narrows : Narrows e s (.guPerspective a sp mtx source)) {after : List (Pending K)}
    (h : after = if s.cameras.view.fovUndo = e.one ∨ a.val = 0 then s.pending
      else notePending s.pending a.val s.cameras.view.fovUndo) :
    owed after a.val = s.sourceFactor e source := by
  cases factor : s.sourceFactor e source with
  | some k =>
    simp only [Narrows, factor] at narrows
    obtain ⟨undo, null, room⟩ := narrows
    have widened : ¬(s.cameras.view.fovUndo = e.one ∨ a.val = 0) := by
      rw [undo]
      exact not_or.mpr ⟨sourceFactor_ne_one factor, null⟩
    rw [h, if_neg widened, owed_notePending_same room, undo]
  | none =>
    simp only [Narrows, factor] at narrows
    obtain ⟨fresh, unnoted⟩ := narrows
    rw [h]
    split
    next => exact fresh
    next skipped =>
      have full : 16 ≤ s.pending.length := by
        rcases unnoted with undo | null | full
        · exact absurd (Or.inl undo) skipped
        · exact absurd (Or.inr null) skipped
        · exact full
      rw [notePending_full fresh full]
      exact fresh

theorem viewHeld_guPerspective {e : FovSettings K} {s : ViewTrace l K} (held : ViewHeld e s)
    {a : l.matrix} {sp : l.stack} {mtx : Fin 64 → UInt8} {source : Option l.camera}
    (narrows : Narrows e s (.guPerspective a sp mtx source)) :
    ViewHeld e (viewStep e s (.guPerspective a sp mtx source)) := by
  obtain ⟨slot, aspect, pending, _⟩ :=
    guPerspective_spec held.slot_empty held.aspect_off a.val sp.val mtx
  obtain ⟨once, known, others⟩ := notePending_held held.once held.known a.property pending
  refine ⟨slot, aspect, once, known, fun b => ?_⟩
  by_cases same : b = a
  · subst b
    simp only [viewStep, Function.update_self]
    exact ⟨fun _ _ => rfl, owed_guPerspective narrows pending⟩
  · have differ : b.val ≠ a.val := fun h => same (Subtype.ext h)
    have before := held.matrices b
    simp only [viewStep, Function.update_of_ne same]
    cases hb : s.built b with
    | none =>
      rw [hb] at before
      exact (others b.val differ).trans before
    | some built =>
      rw [hb] at before
      refine ⟨fun off hoff => ?_, (others b.val differ).trans before.2⟩
      rw [← before.1 off hoff]
      exact congrArg some (guPerspective_element held.slot_empty held.aspect_off
        (l.matrices_apart a.val a.property b.val b.property (Ne.symm differ))
        (l.stack_apart b.val b.property sp.val sp.property) hoff)

/-- At a handover through the context that narrows, every matrix that is owed a
factor gets it. -/
theorem viewHeld_narrow {e : FovSettings K} (narrowing : e.narrowing) (known : e.rdramKnown)
    {s : ViewTrace l K} (held : ViewHeld e s)
    (narrows : Narrows e s (.sendDl .widescreenCulling)) :
    ViewHeld e (viewStep e s (.sendDl .widescreenCulling)) := by
  have after : sendDl e s.cameras.view .widescreenCulling = { s.cameras.view with
      rdram := s.pending.foldl (narrowMatrix e) s.cameras.view.rdram, pending := [] } := by
    simp [sendDl, narrowPendingProjections, narrowing, known, ViewTrace.pending]
  refine ⟨?_, ?_, ?_, ?_, fun a => ?_⟩
  · simpa only [viewStep, after] using held.slot_empty
  · simpa only [viewStep, after] using held.aspect_off
  · simp [viewStep, after, ViewTrace.pending]
  · simp [viewStep, after, ViewTrace.pending]
  · have before := held.matrices a
    simp only [viewStep, after]
    cases hb : s.built a with
    | none => rfl
    | some b =>
      rw [hb] at before
      refine ⟨fun off hoff => ?_, rfl⟩
      have now := element_narrowed (e := e) held.once held.known a.property hoff s.cameras.view.rdram
      obtain ⟨values, debt⟩ := before
      have value := values off hoff
      change some (element _ a.val.toInt off) = b.corrected e off
      rw [now]
      cases handed : b.handed with
      | true =>
        rw [handed, if_pos rfl] at value debt
        rw [debt]
        exact value
      | false =>
        rw [handed, if_neg Bool.false_ne_true] at value debt
        have built : element s.cameras.view.rdram a.val.toInt off = b.value off :=
          Option.some.inj value
        rw [debt, built, Built.corrected]
        cases factor : b.factor with
        | none => rfl
        | some k =>
          obtain ⟨p, hp, address, rfl⟩ := owed_some (debt.trans factor)
          have inRange := narrows p hp off hoff
          rw [address, built] at inRange
          obtain ⟨out, product⟩ := Option.isSome_iff_exists.mp inRange
          simp only [product, Option.getD_some]

theorem viewHeld_pass {e : FovSettings K} {s : ViewTrace l K} (held : ViewHeld e s)
    (narrows : Narrows e s (.sendDl .rt64)) : ViewHeld e (viewStep e s (.sendDl .rt64)) := by
  have nothing : ∀ a, owed s.pending a = none := fun a => by
    rw [show s.pending = [] from narrows, owed_nil]
  refine ⟨held.slot_empty, held.aspect_off, held.once, held.known, fun a => ?_⟩
  have before := held.matrices a
  simp only [viewStep]
  cases hb : s.built a with
  | none => exact nothing a.val
  | some b =>
    rw [hb] at before
    refine ⟨fun off hoff => ?_, nothing a.val⟩
    obtain ⟨values, debt⟩ := before
    have value := values off hoff
    change some (element _ a.val.toInt off) = b.corrected e off
    cases handed : b.handed with
    | true =>
      rw [handed, if_pos rfl] at value
      exact value
    | false =>
      rw [handed, if_neg Bool.false_ne_true] at value debt
      have unwidened : b.factor = none := debt.symm.trans (nothing a.val)
      rw [Built.corrected, unwidened]
      exact value

theorem viewHeld_step {e : FovSettings K} (narrowing : e.narrowing) (known : e.rdramKnown)
    {s : ViewTrace l K} (held : ViewHeld e s) {a : ViewEvent l} (narrows : Narrows e s a) :
    ViewHeld e (viewStep e s a) := by
  cases a with
  | widenCameraFov c =>
    rcases widenCameraFov_cases e s.cameras.view c.val with same | ⟨-, -, -, widened⟩
    · refine viewHeld_cameras held ?_ fun a ha off hoff => ?_
      · simp only [cameraStep, same, and_self]
      · simp only [cameraStep, same]
    · refine viewHeld_cameras held ?_ fun a ha off hoff => ?_
      · simp only [cameraStep, widened, and_self]
      · simp only [cameraStep, widened]
        exact element_storeWord (l.camera_apart a ha c.val c.property) hoff
  | store c value =>
    exact viewHeld_cameras held ⟨rfl, rfl, rfl⟩ fun a ha off hoff =>
      element_storeWord (l.camera_apart a ha c.val c.property) hoff
  | guPerspective a sp mtx source => exact viewHeld_guPerspective held narrows
  | sendDl renderer =>
    cases renderer with
    | widescreenCulling => exact viewHeld_narrow narrowing known held narrows
    | rt64 => exact viewHeld_pass held narrows

/-- In every run whose steps narrow what they widened, each matrix built from a
widened field of view is multiplied once by its factor, at the next handover,
and every other matrix stays as built. -/
theorem projections_corrected {e : FovSettings K} (narrowing : e.narrowing) (known : e.rdramKnown)
    (l : Layout) (rdram : Rdram) {es : List (ViewEvent l)}
    (h : EveryStep (viewStep e) (Narrows e) (ViewTrace.start l e rdram) es) :
    Corrected e (run (viewStep e) (ViewTrace.start l e rdram) es) :=
  corrected_of_held (run_induction (viewHeld_start l e rdram)
    (fun _ _ held narrows => viewHeld_step narrowing known held narrows) h)

def oneMatrix : Layout where
  matrix := {0x80200000}
  camera := {cameraA}
  stack := {-0x7FC01000}
  matrices_apart := by
    rintro a rfl b rfl differ
    exact absurd rfl differ
  camera_apart := by
    rintro a rfl c rfl
    exact Or.inl (by decide)
  stack_apart := by
    rintro a rfl sp rfl
    exact Or.inr (by decide)

def perspectiveMatrix : oneMatrix.matrix := ⟨0x80200000, rfl⟩

/-- A camera of 1.0f is widened, a matrix with 1.0 in both elements built from
it, and a display list submitted. -/
def oneFrame (renderer : Renderer) : List (ViewEvent oneMatrix) :=
  [.store ⟨cameraA, rfl⟩ 0x3F800000, .widenCameraFov ⟨cameraA, rfl⟩,
    .guPerspective perspectiveMatrix ⟨-0x7FC01000, rfl⟩
      (fun i => if i = 1 ∨ i = 11 then 1 else 0) (some ⟨cameraA, rfl⟩),
    .sendDl renderer]

theorem rt64_hands_over_wide : ¬Corrected doubled
    (run (viewStep doubled) (ViewTrace.start oneMatrix doubled fun _ => 0) (oneFrame .rt64)) := by
  intro corrected
  have horizontal := corrected perspectiveMatrix _ rfl 0 (by decide)
  revert horizontal
  decide

theorem one_frame_corrected : Corrected doubled
    (run (viewStep doubled) (ViewTrace.start oneMatrix doubled fun _ => 0)
      (oneFrame .widescreenCulling)) := by
  refine projections_corrected rfl rfl oneMatrix (fun _ => 0)
    ⟨trivial, trivial, ⟨by decide, by decide, Or.inr (by decide)⟩, ?_, trivial⟩
  unfold Narrows
  decide

end Rayman2Recomp
