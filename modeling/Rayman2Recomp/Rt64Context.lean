import Rayman2Recomp.Runs
import Mathlib.Logic.Function.Basic

open Runs

namespace Rayman2Recomp

inductive Resolution
  | original
  | windowIntegerScale
  | manual
deriving DecidableEq

/-- What an entry point asks of `app`: a call, or the read of a member that the
code tests or returns. Members read on the way to a call are part of it. -/
inductive AppCall
  | rspReset
  | loadUCodeGBI (text data : UInt32) (resetFromTask : Bool)
  | processDisplayLists (start stop : UInt32) (isHle : Bool)
  | listProcessBegin
  | setColorImage (format size width address : UInt32)
  | setOtherMode (high low : UInt32)
  | fillRect (left top right bottom : UInt32)
  | fullSync
  | listProcessEnd
  | readRdram
  | updateScreen
  | setFullScreen (fullScreen : Bool)
  | updateUserConfig (discardFramebuffers : Bool)
  | readAppWindow
  | getRefreshRate
  | readResolution
  | readResolutionMultiplier

/-- What comes back. A pointer comes back as whether it is set. -/
abbrev AppCall.Reply : AppCall → Type
  | .readRdram => Bool
  | .readAppWindow => Bool
  | .getRefreshRate => UInt32
  | .readResolution => Resolution
  | .readResolutionMultiplier => Float
  | _ => Unit

/-- One atomic step of an entry point behind its test. -/
inductive ContextOp
  | app (call : AppCall)
  | countDisplayList
  | countDummyWorkload
  | countFrame
  | publishViTick

abbrev ContextOp.Reply : ContextOp → Type
  | .app call => call.Reply
  | _ => Unit

inductive ContextAnswer
  | nothing
  | updated (changed : Bool)
  | framerate (rate : UInt32)
  | scale (multiplier : Float32)

inductive Script
  | done (answer : ContextAnswer)
  | op (op : ContextOp) (next : op.Reply → Script)

structure OSTask where
  ucode : UInt32
  ucodeData : UInt32
  dataPtr : UInt32

inductive WindowMode
  | windowed
  | fullscreen
deriving DecidableEq

/-- ultramodern's settings: the window mode, and the rest, which is compared. -/
structure GraphicsConfig (ρ : Type) where
  wmOption : WindowMode
  rest : ρ
deriving DecidableEq

structure FbProbe where
  origin : UInt32
  opens : Bool

def Rt64Context.sendDl (task : OSTask) : Script :=
  .op .countDisplayList fun _ =>
  .op (.app .rspReset) fun _ =>
  .op (.app (.loadUCodeGBI (task.ucode &&& 0x3FFFFFF) (task.ucodeData &&& 0x3FFFFFF) true)) fun _ =>
  .op (.app (.processDisplayLists (task.dataPtr &&& 0x3FFFFFF) 0 true)) fun _ =>
  .done .nothing

def Rt64Context.sendDummyWorkload (fbAddress : UInt32) : Script :=
  .op .countDummyWorkload fun _ =>
  .op (.app .listProcessBegin) fun _ =>
  .op (.app (.setColorImage 0 2 320 fbAddress)) fun _ =>
  .op (.app (.setOtherMode 0x382C30 0)) fun _ =>
  .op (.app (.fillRect 0 0 ((320 : UInt32) <<< 2) ((240 : UInt32) <<< 2))) fun _ =>
  .op (.app .fullSync) fun _ =>
  .op (.app .listProcessEnd) fun _ =>
  .done .nothing

/-- The probe asks for `core.RDRAM` once to test it and once to use it, first for
the hash and then for the dump. -/
def Rt64Context.probeFramebuffer (probe : FbProbe) (rest : Script) : Script :=
  let dump : Script :=
    .op (.app .readRdram) fun (present : Bool) =>
      if present && probe.opens then .op (.app .readRdram) fun _ => rest else rest
  if probe.origin = 0 then rest
  else
    .op (.app .readRdram) fun (present : Bool) =>
      if present then .op (.app .readRdram) fun _ => dump else dump

def Rt64Context.updateScreen (probe : Option FbProbe) : Script :=
  let present : Script := .op (.app .updateScreen) fun _ => .done .nothing
  .op .countFrame fun _ =>
  .op .publishViTick fun _ =>
  match probe with
  | some probe => Rt64Context.probeFramebuffer probe present
  | none => present

variable {ρ : Type} [DecidableEq ρ]

def Rt64Context.updateConfig (old new : GraphicsConfig ρ) : Script :=
  let update : Script := .op (.app (.updateUserConfig true)) fun _ => .done (.updated true)
  if old = new then .done (.updated false)
  else if new.wmOption ≠ old.wmOption then
    .op (.app (.setFullScreen (new.wmOption = .fullscreen))) fun _ => update
  else update

def Rt64Context.getDisplayFramerate : Script :=
  .op (.app .readAppWindow) fun (present : Bool) =>
    if present then
      .op (.app .getRefreshRate) fun (rate : UInt32) =>
        .done (.framerate (if rate ≠ 0 then rate else 60))
    else .done (.framerate 60)

def Rt64Context.getResolutionScale : Script :=
  .op (.app .readResolution) fun (resolution : Resolution) =>
    if resolution = .manual then
      .op (.app .readResolutionMultiplier) fun (multiplier : Float) =>
        .done (.scale multiplier.toFloat32)
    else .done (.scale 1)

inductive EntryPoint (ρ : Type)
  | sendDl (task : OSTask)
  | sendDummyWorkload (fbAddress : UInt32)
  | updateScreen (probe : Option FbProbe)
  | updateConfig (old new : GraphicsConfig ρ)
  | getDisplayFramerate
  | getResolutionScale

def EntryPoint.script : EntryPoint ρ → Script
  | .sendDl task => Rt64Context.sendDl task
  | .sendDummyWorkload fbAddress => Rt64Context.sendDummyWorkload fbAddress
  | .updateScreen probe => Rt64Context.updateScreen probe
  | .updateConfig old new => Rt64Context.updateConfig old new
  | .getDisplayFramerate => Rt64Context.getDisplayFramerate
  | .getResolutionScale => Rt64Context.getResolutionScale

def EntryPoint.unusable : EntryPoint ρ → ContextAnswer
  | .updateConfig _ _ => .updated false
  | .getDisplayFramerate => .framerate 60
  | .getResolutionScale => .scale 1
  | _ => .nothing

inductive ContextCall (ρ : Type)
  | entry (point : EntryPoint ρ)
  | shutdown

inductive ContextPc
  | idle
  | inside (script : Script)
  | ending

inductive AppUse
  | call (call : AppCall)
  | finish

def AppUse.isFinish : AppUse → Bool
  | .finish => true
  | _ => false

/-- The wrapper, its counters and its threads; `uses` is all that was asked of
`app`, in order. `app` is null from the start where its setup failed. -/
structure Rt64Context (ι ρ : Type) where
  app : Bool
  ended : Bool
  displayLists : UInt64
  dummyWorkloads : UInt64
  frames : UInt64
  viTicked : Bool
  uses : List (ι × AppUse)
  answers : List (ι × ContextAnswer)
  pc : ι → ContextPc
  calls : ι → List (ContextCall ρ)

variable {ι : Type} [DecidableEq ι]

def Rt64Context.start (app : Bool) (calls : ι → List (ContextCall ρ)) : Rt64Context ι ρ :=
  ⟨app, false, 0, 0, 0, false, [], [], fun _ => .idle, calls⟩

def Rt64Context.usable (s : Rt64Context ι ρ) : Bool := s.app && !s.ended

def Rt64Context.goto (s : Rt64Context ι ρ) (t : ι) (pc : ContextPc) : Rt64Context ι ρ :=
  { s with pc := Function.update s.pc t pc }

def Rt64Context.use (s : Rt64Context ι ρ) (t : ι) (u : AppUse) : Rt64Context ι ρ :=
  { s with uses := s.uses ++ [(t, u)] }

def Rt64Context.answer (s : Rt64Context ι ρ) (t : ι) (a : ContextAnswer) : Rt64Context ι ρ :=
  { s with answers := s.answers ++ [(t, a)] }

def Rt64Context.perform (s : Rt64Context ι ρ) (t : ι) : ContextOp → Rt64Context ι ρ
  | .app call => s.use t (.call call)
  | .countDisplayList => { s with displayLists := s.displayLists + 1 }
  | .countDummyWorkload => { s with dummyWorkloads := s.dummyWorkloads + 1 }
  | .countFrame => { s with frames := s.frames + 1 }
  | .publishViTick => { s with viTicked := true }

/-- A scheduler's choice: a thread, and what `app` would return to it now. -/
structure ContextTurn (ι : Type) where
  thread : ι
  reply : (call : AppCall) → call.Reply

def ContextTurn.replyTo (choice : ContextTurn ι) : (op : ContextOp) → op.Reply
  | .app call => choice.reply call
  | .countDisplayList => ()
  | .countDummyWorkload => ()
  | .countFrame => ()
  | .publishViTick => ()

/-- The first step of a call: the test of an entry point, or the exchange of
`shutdown`. -/
def enterContext (s : Rt64Context ι ρ) (t : ι) : ContextCall ρ → Rt64Context ι ρ
  | .entry point =>
    if s.usable then s.goto t (.inside point.script) else s.answer t point.unusable
  | .shutdown =>
    if s.ended then s
    else { s.goto t (if s.app then .ending else .idle) with ended := true }

def contextStep (s : Rt64Context ι ρ) (choice : ContextTurn ι) : Rt64Context ι ρ :=
  let t := choice.thread
  match s.pc t with
  | .idle =>
    match s.calls t with
    | [] => s
    | call :: rest => enterContext { s with calls := Function.update s.calls t rest } t call
  | .inside (.done a) => (s.answer t a).goto t .idle
  | .inside (.op op next) => (s.perform t op).goto t (.inside (next (choice.replyTo op)))
  | .ending => (s.use t .finish).goto t .idle

end Rayman2Recomp
