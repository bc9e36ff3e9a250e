import Mathlib.Algebra.Order.Ring.Nat
import Mathlib.Data.List.Basic

namespace Rayman2Recomp

inductive RspExitReason
  | broke
  | unhandledJumpTarget
  deriving DecidableEq

/-- What librecomp gives the microcode of DMEM and DMA, over the rest of the machine. -/
structure RspMemory (μ : Type) where
  loadW : μ → UInt32 → UInt32
  loadH : μ → UInt32 → UInt32
  storeW : μ → UInt32 → UInt32 → μ
  storeH : μ → UInt32 → UInt32 → μ
  dmaRead : μ → UInt32 → UInt32 → UInt32 → μ
  dramW : μ → UInt32 → UInt32

/-- The registers of the command loop. The others and the vector unit are in `machine`. -/
structure Rsp (μ : Type) where
  r1 : UInt32
  r2 : UInt32
  r3 : UInt32
  r4 : UInt32
  r5 : UInt32
  r23 : UInt32
  r24 : UInt32
  r25 : UInt32
  r26 : UInt32
  r27 : UInt32
  r28 : UInt32
  r29 : UInt32
  r30 : UInt32
  r31 : UInt32
  dmaMemAddress : UInt32
  dmaDramAddress : UInt32
  jumpTarget : UInt32
  machine : μ

inductive AudioLabel
  | entry
  | l10A8
  | l10B4
  | l10C0
  | l10C8
  | l10D4
  | l10E4
  | l1118
  | l1130
  | l1138
  | l1148
  | l1150
  | l116C
  | l1178
  | l1184
  | l1190
  | doIndirectJump
  | command (label : UInt32)

inductive AudioStep (μ : Type)
  | goto (label : AudioLabel) (s : Rsp μ)
  | call (label : UInt32) (after : Rsp μ)
  | exit (reason : RspExitReason)

/-- `RSP_SIGNED`. -/
def rspSigned (r : UInt32) : Int := r.toBitVec.toInt

/-- The labels of the jump table at the end that belong to commands. -/
def commandLabels : List UInt32 :=
  [0x144C, 0x1868, 0x170C, 0x14FC, 0x12BC, 0x16F8, 0x1280, 0x1240, 0x1328, 0x1294, 0x1B24, 0x1E10,
    0x1214, 0x1470, 0x11DC, 0x1790, 0x187C, 0x18C8, 0x1B8C, 0x1254, 0x12D0, 0x1E24, 0x1B38, 0x12EC,
    0x140C, 0x138C]

/-- What the `switch` of `do_indirect_jump` looks at. -/
def imemAddress (target : UInt32) : UInt32 := (target ||| 0x1000) &&& 0x1FFF

def doIndirectJump {μ : Type} (s : Rsp μ) : AudioStep μ :=
  if imemAddress s.jumpTarget = 0x1178 then .goto .l1178 s
  else if imemAddress s.jumpTarget = 0x1130 then .goto .l1130 s
  else if imemAddress s.jumpTarget = 0x1118 then .goto .l1118 s
  else if imemAddress s.jumpTarget = 0x10C0 then .goto .l10C0 s
  else if imemAddress s.jumpTarget ∈ commandLabels then
    .goto (.command (imemAddress s.jumpTarget)) s
  else .exit .unhandledJumpTarget

section

variable {μ : Type} (mem : RspMemory μ) (handle : UInt32 → Rsp μ → Rsp μ)

/-- `rayman2_rsp_audio` from one label to the next jump. A command runs as one step, to its
`goto L_1118`. -/
def audioStep : AudioLabel → Rsp μ → AudioStep μ
  | .entry, s =>
    let s := { s with r1 := 0xFC0 }
    let s := { s with r24 := 0 + 0x360 }
    let s := { s with r23 := 0 + 0xF90 }
    let s := { s with r28 := mem.loadW s.machine (0x30 + s.r1) }
    let s := { s with r27 := mem.loadW s.machine (0x34 + s.r1) }
    -- DPC_STATUS reads as 0
    let s := { s with r5 := 0 }
    let s := { s with r4 := s.r5 &&& 0x1 }
    if s.r4 = (0 : UInt32) then .goto .l10B4 { s with r4 := s.r5 &&& 0x100 }
    else
      let s := { s with r4 := s.r5 &&& 0x100 }
      if s.r4 = 0 then .goto .l10B4 s else .goto .l10A8 s
  | .l10A8, s =>
    let s := { s with r4 := 0 }
    let s := { s with r4 := s.r4 &&& 0x100 }
    if rspSigned s.r4 > 0 then .goto .l10A8 s else .goto .l10B4 s
  | .l10B4, s => .goto .l1150 { s with r31 := 0x10C0 }
  | .l10C0, s => .goto .l10C8 { s with r2 := 0 + 0xF, r1 := 0 + 0x320 }
  | .l10C8, s =>
    let s := { s with machine := mem.storeW s.machine (0 + s.r1) 0 }
    if rspSigned s.r2 > 0 then .goto .l10C8 { s with r2 := s.r2 - 0x1 }
    else .goto .l10D4 { s with r2 := s.r2 - 0x1 }
  | .l10D4, s =>
    -- SP_DMA_BUSY reads as 0
    let s := { s with r2 := 0 }
    if s.r2 ≠ (0 : UInt32) then .goto .l10D4 { s with r29 := 0 + 0x380 }
    else .goto .l10E4 { s with r29 := 0 + 0x380 }
  | .l10E4, s =>
    let s := { s with r26 := mem.loadW s.machine (0 + s.r29) }
    let s := { s with r25 := mem.loadW s.machine (0x4 + s.r29) }
    let s := { s with r1 := s.r26 >>> 23 }
    let s := { s with r1 := s.r1 &&& 0xFE }
    let s := { s with r28 := s.r28 + 0x8 }
    let s := { s with r27 := s.r27 - 0x8 }
    let s := { s with r29 := s.r29 + 0x8 }
    let s := { s with r30 := s.r30 - 0x8 }
    let s := { s with r2 := 0 + s.r1 }
    let s := { s with r2 := mem.loadH s.machine (0x10 + s.r2) }
    .goto .doIndirectJump { s with jumpTarget := s.r2 }
  | .l1118, s =>
    if rspSigned s.r30 > 0 then .goto .l10E4 s
    else if rspSigned s.r27 ≤ 0 then .goto .l1138 s
    else .goto .l1150 { s with r31 := 0x1130 }
  | .l1130, s => .goto .l10D4 s
  | .l1138, _ => .exit .broke
  | .l1148, s => .goto .l1148 s
  | .l1150, s =>
    let s := { s with r5 := s.r31 + 0x0 }
    let s := { s with r2 := 0 + s.r28 }
    let s := { s with r3 := s.r27 + 0x0 }
    let s := { s with r4 := s.r3 - 0x140 }
    if rspSigned s.r4 ≤ 0 then .goto .l116C { s with r1 := 0 + 0x380 }
    else .goto .l116C { s with r1 := 0 + 0x380, r3 := 0 + 0x140 }
  | .l116C, s =>
    let s := { s with r30 := s.r3 + 0x0 }
    .goto .l1184 { s with r31 := 0x1178, r3 := s.r3 - 0x1 }
  | .l1178, s =>
    let s := { s with r29 := 0 + 0x380 }
    .goto .doIndirectJump { s with jumpTarget := s.r5 }
  | .l1184, s =>
    -- SP_SEMAPHORE reads as 0
    let s := { s with r4 := 0 }
    if s.r4 ≠ 0 then .goto .l1184 s else .goto .l1190 s
  | .l1190, s =>
    -- SP_DMA_FULL reads as 0
    let s := { s with r4 := 0 }
    if s.r4 ≠ 0 then .goto .l1190 s
    else
      let s := { s with dmaMemAddress := s.r1 }
      let s := { s with dmaDramAddress := s.r2 }
      let s :=
        { s with machine := mem.dmaRead s.machine s.dmaMemAddress s.dmaDramAddress s.r3 }
      .goto .doIndirectJump { s with jumpTarget := s.r31 }
  | .doIndirectJump, s => doIndirectJump s
  | .command label, s => .call label (handle label s)

/-- `L_12D0`, a segment's base. -/
def setSegment (s : Rsp μ) : Rsp μ :=
  let s := { s with r3 := s.r25 <<< 8 }
  let s := { s with r3 := s.r3 >>> 8 }
  let s := { s with r2 := s.r25 >>> 24 }
  let s := { s with r2 := s.r2 <<< 2 }
  let s := { s with r4 := 0 + s.r2 }
  { s with machine := mem.storeW s.machine (0x320 + s.r4) s.r3 }

/-- `L_12EC`, the buffers of the commands that follow. -/
def setBuffers (s : Rsp μ) : Rsp μ :=
  let s := { s with r1 := s.r26 + 0x5C0 }
  let s := { s with r2 := s.r25 >>> 16 }
  let s := { s with r2 := s.r2 + 0x5C0 }
  let s := { s with r4 := s.r26 >>> 16 }
  let s := { s with r4 := s.r4 &&& 0x8 }
  let s := { s with r3 := s.r25 + 0x5C0 }
  if rspSigned s.r4 > 0 then
    let s := { s with machine := mem.storeH s.machine (0xE + s.r24) s.r3 }
    let s := { s with machine := mem.storeH s.machine (0xA + s.r24) s.r1 }
    { s with machine := mem.storeH s.machine (0xC + s.r24) s.r2 }
  else
    let s := { s with machine := mem.storeH s.machine (0x0 + s.r24) s.r1 }
    let s := { s with machine := mem.storeH s.machine (0x2 + s.r24) s.r2 }
    { s with machine := mem.storeH s.machine (0x4 + s.r24) s.r25 }

/-- `L_1328`, volumes, their targets and rates. -/
def setVolume (s : Rsp μ) : Rsp μ :=
  let s := { s with r2 := s.r26 >>> 16 }
  let s := { s with r1 := s.r2 &&& 0x8 }
  if s.r1 ≠ 0 then
    let s := { s with r1 := s.r2 &&& 0x4 }
    let s := { s with machine := mem.storeH s.machine (0x1C + s.r24) s.r26 }
    { s with machine := mem.storeH s.machine (0x1E + s.r24) s.r25 }
  else
    let s := { s with r1 := s.r2 &&& 0x4 }
    if s.r1 ≠ (0 : UInt32) then
      let s := { s with r1 := s.r2 &&& 0x2 }
      if s.r1 ≠ (0 : UInt32) then { s with machine := mem.storeH s.machine (0x6 + s.r24) s.r26 }
      else { s with machine := mem.storeH s.machine (0x8 + s.r24) s.r26 }
    else
      let s := { s with r1 := s.r2 &&& 0x2 }
      if s.r1 ≠ (0 : UInt32) then
        let s := { s with r1 := s.r25 >>> 16 }
        let s := { s with machine := mem.storeH s.machine (0x10 + s.r24) s.r26 }
        let s := { s with machine := mem.storeH s.machine (0x12 + s.r24) s.r1 }
        { s with machine := mem.storeH s.machine (0x14 + s.r24) s.r25 }
      else
        let s := { s with r1 := s.r25 >>> 16 }
        let s := { s with machine := mem.storeH s.machine (0x16 + s.r24) s.r26 }
        let s := { s with machine := mem.storeH s.machine (0x18 + s.r24) s.r1 }
        { s with machine := mem.storeH s.machine (0x1A + s.r24) s.r25 }

/-- `L_144C`, where a looped sample goes back to. -/
def setLoop (s : Rsp μ) : Rsp μ :=
  let s := { s with r1 := s.r25 <<< 8 }
  let s := { s with r1 := s.r1 >>> 8 }
  let s := { s with r3 := s.r25 >>> 24 }
  let s := { s with r3 := s.r3 <<< 2 }
  let s := { s with r2 := mem.loadW s.machine (0x320 + s.r3) }
  let s := { s with r1 := s.r1 + s.r2 }
  { s with machine := mem.storeW s.machine (0x10 + s.r24) s.r1 }

/-- The commands that only set parameters; the others are `other`. -/
def settingCommand (other : UInt32 → Rsp μ → Rsp μ) (label : UInt32) : Rsp μ → Rsp μ :=
  if label = 0x12D0 then setSegment mem
  else if label = 0x12EC then setBuffers mem
  else if label = 0x1328 then setVolume mem
  else if label = 0x144C then setLoop mem
  else other label

/-- One command of a run: where the jump went and the machine around it. -/
structure AudioCall (μ : Type) where
  label : UInt32
  before : Rsp μ
  after : Rsp μ

structure AudioRun (μ : Type) where
  calls : List (AudioCall μ)
  result : Option RspExitReason

def playAudio : Nat → AudioLabel → Rsp μ → AudioRun μ
  | 0, _, _ => ⟨[], none⟩
  | fuel + 1, label, s =>
    match audioStep mem handle label s with
    | .goto next s' => playAudio fuel next s'
    | .call command after =>
      ⟨⟨command, s, after⟩ :: (playAudio fuel .l1118 after).calls,
        (playAudio fuel .l1118 after).result⟩
    | .exit reason => ⟨[], some reason⟩

/-- All registers start as 0. -/
def Rsp.reset (m : μ) : Rsp μ where
  r1 := 0
  r2 := 0
  r3 := 0
  r4 := 0
  r5 := 0
  r23 := 0
  r24 := 0
  r25 := 0
  r26 := 0
  r27 := 0
  r28 := 0
  r29 := 0
  r30 := 0
  r31 := 0
  dmaMemAddress := 0
  dmaDramAddress := 0
  jumpTarget := 0
  machine := m

def rayman2RspAudio (fuel : Nat) (m : μ) : AudioRun μ :=
  playAudio mem handle fuel .entry (Rsp.reset m)

end

end Rayman2Recomp
