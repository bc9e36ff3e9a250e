import Rayman2Recomp.HostRam
import Rayman2Recomp.Runs

open Runs

namespace Rayman2Recomp

inductive ScanState
  | unknown
  | idle
  | busy
deriving DecidableEq

structure Candidate where
  offset : Nat
  idleValue : UInt32
  busyValue : UInt32

structure PublishedScan where
  candidates : Nat
  haveCandidates : Bool
  idleSamples : Int32
  busySamples : Int32

structure DemoScan where
  idleSnapshot : List UInt32
  candidates : List Candidate
  haveIdleSnapshot : Bool
  haveCandidates : Bool
  idleSamples : Int32
  busySamples : Int32
  published : PublishedScan

def DemoScan.start : DemoScan := ⟨[], [], false, false, 0, 0, ⟨0, false, 0, 0⟩⟩

def rawWord (ram : HostRam) (offset : Nat) : UInt32 := hostWord ram offset

def publishScan (s : DemoScan) : DemoScan :=
  { s with published := ⟨s.candidates.length, s.haveCandidates, s.idleSamples, s.busySamples⟩ }

def takeIdleSnapshot (s : DemoScan) (ram : HostRam) : DemoScan :=
  publishScan
    { s with
      idleSnapshot := (List.range kWords).map fun i => rawWord ram (i * 4)
      haveIdleSnapshot := true
      idleSamples := 1 }

def buildCandidates (s : DemoScan) (ram : HostRam) : DemoScan :=
  publishScan
    { s with
      candidates := (List.range kWords).filterMap fun i =>
        let now := rawWord ram (i * 4)
        if now ≠ s.idleSnapshot.getD i 0 then some ⟨i * 4, s.idleSnapshot.getD i 0, now⟩ else none
      haveCandidates := true
      busySamples := 1
      idleSnapshot := [] }

def Candidate.agrees (c : Candidate) (ram : HostRam) (state : ScanState) : Bool :=
  rawWord ram c.offset == if state = .idle then c.idleValue else c.busyValue

def filterCandidates (s : DemoScan) (ram : HostRam) (state : ScanState) : DemoScan :=
  let s := { s with candidates := s.candidates.filter fun c => c.agrees ram state }
  publishScan
    (if state = .idle then { s with idleSamples := s.idleSamples + 1 }
    else { s with busySamples := s.busySamples + 1 })

/-- The tail of `demo_scan_poll`, which a settled state reaches once. -/
def takeSample (s : DemoScan) (ram : HostRam) (state : ScanState) : DemoScan :=
  if !s.haveIdleSnapshot && !s.haveCandidates then
    if state = .idle then takeIdleSnapshot s ram else s
  else if !s.haveCandidates then
    if state = .busy then buildCandidates s ram else s
  else filterCandidates s ram state

/-- A sample that reaches the tail: `demo_scan_poll` returns before it for a rate
it has no label for. -/
structure SettledSample where
  ram : HostRam
  state : ScanState
  labelled : state ≠ .unknown

def scanStep (s : DemoScan) (sample : SettledSample) : DemoScan :=
  takeSample s sample.ram sample.state

section Steps

variable {s : DemoScan} {sample : SettledSample} {samples : List SettledSample}

theorem SettledSample.idle_or_busy (sample : SettledSample) :
    sample.state = .idle ∨ sample.state = .busy := by
  have labelled := sample.labelled
  cases state : sample.state with
  | unknown => exact absurd state labelled
  | idle => exact Or.inl rfl
  | busy => exact Or.inr rfl

def DemoScan.Fresh (s : DemoScan) : Prop :=
  s.haveIdleSnapshot = false ∧ s.haveCandidates = false ∧ s.candidates = []

def DemoScan.Snapped (s : DemoScan) (ram : HostRam) : Prop :=
  s.haveIdleSnapshot = true ∧ s.haveCandidates = false ∧ s.candidates = [] ∧
    s.idleSnapshot = (List.range kWords).map fun i => rawWord ram (i * 4)

theorem scanStep_fresh_busy (fresh : s.Fresh) (busy : sample.state = .busy) :
    scanStep s sample = s := by
  obtain ⟨snapshot, candidates, _⟩ := fresh
  simp [scanStep, takeSample, snapshot, candidates, busy]

theorem scanStep_fresh_idle (fresh : s.Fresh) (idle : sample.state = .idle) :
    (scanStep s sample).Snapped sample.ram := by
  obtain ⟨snapshot, have_none, none_yet⟩ := fresh
  simp [scanStep, takeSample, snapshot, have_none, idle, takeIdleSnapshot, publishScan,
    DemoScan.Snapped, none_yet]

theorem scanStep_snapped_idle {ram : HostRam} (snapped : s.Snapped ram)
    (idle : sample.state = .idle) : scanStep s sample = s := by
  obtain ⟨snapshot, have_none, _, _⟩ := snapped
  simp [scanStep, takeSample, snapshot, have_none, idle]

def moved (idle busy : HostRam) : List Candidate :=
  (wordOffsets.filter fun o => rawWord busy o != rawWord idle o).map fun o =>
    ⟨o, rawWord idle o, rawWord busy o⟩

theorem scanStep_snapped_busy {ram : HostRam} (snapped : s.Snapped ram)
    (busy : sample.state = .busy) :
    (scanStep s sample).haveCandidates = true ∧
      (scanStep s sample).candidates = moved ram sample.ram := by
  obtain ⟨snapshot, have_none, _, words⟩ := snapped
  have step : scanStep s sample = buildCandidates s sample.ram := by
    simp [scanStep, takeSample, snapshot, have_none, busy]
  rw [step]
  refine ⟨rfl, ?_⟩
  have value : ∀ i ∈ List.range kWords, s.idleSnapshot.getD i 0 = rawWord ram (i * 4) := by
    intro i mem
    have lt := List.mem_range.mp mem
    simp [words, List.getD_eq_getElem?_getD, lt]
  have built : (buildCandidates s sample.ram).candidates =
      (List.range kWords).filterMap fun i =>
        if rawWord sample.ram (i * 4) ≠ rawWord ram (i * 4) then
          some ⟨i * 4, rawWord ram (i * 4), rawWord sample.ram (i * 4)⟩
        else none := by
    refine List.filterMap_congr fun i mem => ?_
    rw [value i mem]
  rw [built, moved, wordOffsets, List.filter_map, List.map_map, ← List.filterMap_eq_map,
    ← List.filterMap_eq_filter, List.filterMap_filterMap]
  refine List.filterMap_congr fun i _ => ?_
  by_cases same : rawWord sample.ram (i * 4) = rawWord ram (i * 4) <;> simp [same, Option.guard]

theorem scanStep_filter (candidates : s.haveCandidates = true) (sample : SettledSample) :
    (scanStep s sample).haveCandidates = true ∧
      (scanStep s sample).candidates =
        s.candidates.filter fun c => c.agrees sample.ram sample.state := by
  have step : scanStep s sample = filterCandidates s sample.ram sample.state := by
    simp [scanStep, takeSample, candidates]
  rw [step, filterCandidates]
  split
  next => exact ⟨candidates, rfl⟩
  next => exact ⟨candidates, rfl⟩

end Steps

end Rayman2Recomp
