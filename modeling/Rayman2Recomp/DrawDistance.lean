import Rayman2Recomp.BigEndian
import Rayman2Recomp.SiPak

open ByteMemory

namespace Rayman2Recomp

/-- The settings of the hooks, and their float arithmetic on 32-bit patterns.
`K` is the type of the projection factors. -/
structure FovSettings (K : Type) where
  /-- `RAYMAN2_FOV` names a factor. -/
  forced : Bool
  /-- Cleared by `RAYMAN2_NARROW=0`. -/
  narrowing : Bool
  rdramKnown : Bool
  /-- `fov > 0.05f && fov < 3.0f` -/
  isAngle : BitVec 32 → Bool
  /-- `fov * forced` -/
  widened : BitVec 32 → BitVec 32
  /-- `std::tan(widened * 0.5f) / std::tan(fov * 0.5f)` -/
  undo : BitVec 32 → BitVec 32 → K
  one : K
  /-- The product of an s15.16 element and a factor, where it is in range. -/
  narrowed : BitVec 32 → K → Option (BitVec 32)
  /-- The far plane scaled, where it is not left alone. -/
  farPlane : BitVec 32 → Option (BitVec 32)

structure Pending (K : Type) where
  address : BitVec 32
  factor : K

/-- RDRAM and what the hooks remember between calls. -/
structure ViewState (K : Type) where
  rdram : Rdram
  lastWritten : BitVec 32
  fovUndo : K
  perspectiveMtx : BitVec 32
  perspectiveK : K
  pending : List (Pending K)

variable {K : Type}

def ViewState.start (e : FovSettings K) (rdram : Rdram) : ViewState K :=
  ⟨rdram, 0, e.one, 0, e.one, []⟩

def memW (rdram : Rdram) (offset base : Int) : BitVec 32 := loadWord rdram (base + offset)

def memH (rdram : Rdram) (offset base : Int) : BitVec 16 := loadHalf rdram (base + offset)

/-- The automatic path behind `forced` is parked: it returns first. -/
def widenCameraFov (e : FovSettings K) (v : ViewState K) (camera : Int) : ViewState K :=
  let raw := memW v.rdram 0x68 camera
  if !e.isAngle raw then v
  else if raw = v.lastWritten then v
  else if e.forced then
    let out := e.widened raw
    { v with
      rdram := storeWord v.rdram (camera + 0x68) out
      lastWritten := out
      fovUndo := e.undo out raw }
  else v

/-- The start hook of `guPerspective`. Its aspect branch is switched off, so
nothing else reads the aspects it notes. -/
def scaleDrawDistance [DecidableEq K] (e : FovSettings K) (v : ViewState K) (r4 : BitVec 32)
    (sp : Int) : ViewState K :=
  let v := if v.fovUndo ≠ e.one then { v with perspectiveMtx := r4 } else v
  match e.farPlane (memW v.rdram 0x14 sp) with
  | none => v
  | some far => { v with rdram := storeWord v.rdram (sp + 0x14) far }

/-- The first entry for the matrix takes the new factor. -/
def setFactor (mtx : BitVec 32) (k : K) : List (Pending K) → Option (List (Pending K))
  | [] => none
  | entry :: rest =>
    if entry.address = mtx then some ({ entry with factor := k } :: rest)
    else (setFactor mtx k rest).map (entry :: ·)

def notePending (pending : List (Pending K)) (mtx : BitVec 32) (k : K) : List (Pending K) :=
  match setFactor mtx k pending with
  | some rebuilt => rebuilt
  | none => if pending.length < 16 then pending ++ [⟨mtx, k⟩] else pending

def recordProjectionMatrix [DecidableEq K] (e : FovSettings K) (v : ViewState K) : ViewState K :=
  let aspectK := v.perspectiveK
  let mtx := v.perspectiveMtx
  let v := { v with perspectiveK := e.one, perspectiveMtx := 0 }
  let k := if aspectK ≠ e.one then aspectK else v.fovUndo
  if k = e.one ∨ mtx = 0 then v
  else { v with pending := notePending v.pending mtx k }

/-- A whole call: the start hook, the 64 bytes it writes at `$a0`, the return hook. -/
def guPerspective [DecidableEq K] (e : FovSettings K) (v : ViewState K) (r4 : BitVec 32)
    (sp : Int) (mtx : Fin 64 → UInt8) : ViewState K :=
  let v := scaleDrawDistance e v r4 sp
  recordProjectionMatrix e { v with rdram := storeBytes v.rdram r4.toInt mtx }

/-- An s15.16 element: its integer half stands at `off`, its fraction 32 bytes on. -/
def element (rdram : Rdram) (base off : Int) : BitVec 32 :=
  ((memH rdram off base).signExtend 32 <<< 16) ||| (memH rdram (32 + off) base).setWidth 32

def narrowElement (e : FovSettings K) (k : K) (base : Int) (rdram : Rdram) (off : Int) : Rdram :=
  match e.narrowed (element rdram base off) k with
  | none => rdram
  | some out =>
    storeHalf (storeHalf rdram (base + off) ((out.sshiftRight 16).setWidth 16))
      (base + (32 + off)) ((out &&& 0xFFFF).setWidth 16)

def elementOffsets : List Int := [0, 10]

def narrowMatrix (e : FovSettings K) (rdram : Rdram) (entry : Pending K) : Rdram :=
  elementOffsets.foldl (narrowElement e entry.factor entry.address.toInt) rdram

def narrowPendingProjections (e : FovSettings K) (v : ViewState K) : ViewState K :=
  if !e.narrowing then { v with pending := [] }
  else if !e.rdramKnown then v
  else { v with rdram := v.pending.foldl (narrowMatrix e) v.rdram, pending := [] }

/-- The renderer contexts a display list can be submitted through. -/
inductive Renderer
  | widescreenCulling
  | rt64

/-- `send_dl` up to the moment the list is handed over. -/
def sendDl (e : FovSettings K) (v : ViewState K) : Renderer → ViewState K
  | .widescreenCulling => narrowPendingProjections e v
  | .rt64 => v

theorem halves_append (x : BitVec 16) (y : BitVec 16) :
    (x.signExtend 32 <<< 16) ||| y.setWidth 32 = x ++ y := by
  apply BitVec.eq_of_getLsbD_eq
  grind

theorem element_eq (rdram : Rdram) (base off : Int) :
    element rdram base off = memH rdram off base ++ memH rdram (32 + off) base :=
  halves_append _ _

theorem upper_half (out : BitVec 32) :
    (out.sshiftRight 16).setWidth 16 = out.extractLsb' 16 16 := by
  ext i hi
  have upper : 16 + i < 32 := by omega
  simp only [BitVec.getElem_setWidth, BitVec.getLsbD_sshiftRight, BitVec.getElem_extractLsb', upper,
    if_true]
  simpa using fun _ => (by omega : i < 32)

theorem lower_half (out : BitVec 32) : (out &&& 0xFFFF).setWidth 16 = out.extractLsb' 0 16 := by
  have mask : (0xFFFF : BitVec 32).setWidth 16 = BitVec.allOnes 16 := rfl
  rw [BitVec.setWidth_and, mask, BitVec.and_allOnes, BitVec.setWidth_eq_extractLsb' (by omega)]

/-- The two halfwords of one element. -/
def OfElement (base off x : Int) : Prop :=
  (base + off ≤ x ∧ x < base + off + 2) ∨ (base + off + 32 ≤ x ∧ x < base + off + 34)

theorem element_congr {m n : Rdram} {base off : Int}
    (h : ∀ x, OfElement base off x → m x = n x) : element m base off = element n base off := by
  have integer : memH m off base = memH n off base :=
    loadHalf_congr fun x lower upper => h x (Or.inl ⟨lower, upper⟩)
  have fraction : memH m (32 + off) base = memH n (32 + off) base :=
    loadHalf_congr fun x lower upper => h x (Or.inr ⟨by omega, by omega⟩)
  rw [element, integer, fraction]
  rfl

theorem narrowElement_outside {e : FovSettings K} {k : K} {base off x : Int} {m : Rdram}
    (h : ¬OfElement base off x) : narrowElement e k base m off x = m x := by
  unfold narrowElement
  unfold OfElement at h
  cases e.narrowed (element m base off) k with
  | none => rfl
  | some out => exact (storeHalf_outside (by omega)).trans (storeHalf_outside (by omega))

theorem element_narrowElement (e : FovSettings K) (k : K) (m : Rdram) (base off : Int) :
    element (narrowElement e k base m off) base off =
      (e.narrowed (element m base off) k).getD (element m base off) := by
  unfold narrowElement
  cases e.narrowed (element m base off) k with
  | none => rfl
  | some out =>
    have apart : Apart (base + (32 + off)) 2 (base + off) 2 := by unfold Apart; omega
    simp only [element_eq, memH, Option.getD_some]
    rw [loadHalf_storeHalf_apart apart, loadHalf_storeHalf_same, loadHalf_storeHalf_same,
      upper_half, lower_half]
    exact BitVec.extractLsb'_append_extractLsb'

end Rayman2Recomp
