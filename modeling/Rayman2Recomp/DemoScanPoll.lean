import Rayman2Recomp.DemoScan

open Runs

namespace Rayman2Recomp

/-- `kSettle`, in nanoseconds of the clock. -/
def kSettle : Int := 3000000000

/-- The label of a rate: below 10 lists a second, or above 40. Exact, where the
code divides as doubles. -/
def rateLabel (lists : UInt64) (ms : Int) : ScanState :=
  if (lists.toNat : Int) * 1000 < 10 * ms then .idle
  else if (lists.toNat : Int) * 1000 > 40 * ms then .busy
  else .unknown

structure ScanStatics where
  windowStart : Int
  windowBase : UInt64
  state : ScanState
  stateSince : Int
  sampled : Bool

structure RateWindow where
  start : Int
  stop : Int
  label : ScanState

inductive ScanEvent
  | window (window : RateWindow)
  | sample (time : Int) (state : ScanState)

structure ScanRun where
  statics : Option ScanStatics
  scan : DemoScan
  trace : List ScanEvent

def ScanRun.start : ScanRun := ⟨none, .start, []⟩

/-- One call: the pointer, the clock as the statics and `now` read it, and the
display-list counter. -/
structure PollCall where
  ram : Option HostRam
  windowInit : Int
  sinceInit : Int
  now : Int
  lists : UInt64

/-- The statics are set by the first call that comes past the guard. -/
def ScanRun.staticsAt (r : ScanRun) (call : PollCall) : ScanStatics :=
  r.statics.getD ⟨call.windowInit, 0, .unknown, call.sinceInit, false⟩

def DemoScan.takes (s : DemoScan) (state : ScanState) : Bool :=
  if !s.haveIdleSnapshot && !s.haveCandidates then state = .idle
  else if !s.haveCandidates then state = .busy
  else true

def afterWindow (st : ScanStatics) (scan : DemoScan) (trace : List ScanEvent) (ram : HostRam)
    (now : Int) (observed : ScanState) : ScanRun :=
  if observed = .unknown then ⟨some st, scan, trace⟩
  else if observed ≠ st.state then
    ⟨some { st with state := observed, stateSince := now, sampled := false }, scan, trace⟩
  else if st.sampled || now - st.stateSince < kSettle then ⟨some st, scan, trace⟩
  else
    ⟨some { st with sampled := true }, takeSample scan ram st.state,
      if scan.takes st.state then trace ++ [.sample now st.state] else trace⟩

/-- `armed` is whether either environment variable asks for the scan; `label`
stands for the comparison of the rate. -/
def demoScanPoll (armed : Bool) (label : UInt64 → Int → ScanState) (r : ScanRun)
    (call : PollCall) : ScanRun :=
  match armed, call.ram with
  | true, some ram =>
    let st := r.staticsAt call
    let elapsed := call.now - st.windowStart
    if elapsed < 500000000 then { r with statics := some st }
    else
      let observed := label (call.lists - st.windowBase) (elapsed.tdiv 1000000)
      afterWindow { st with windowStart := call.now, windowBase := call.lists } r.scan
        (r.trace ++ [.window ⟨st.windowStart, call.now, observed⟩]) ram call.now observed
  | _, _ => r

theorem takeSample_untaken {s : DemoScan} {ram : HostRam} {state : ScanState}
    (untaken : s.takes state = false) : takeSample s ram state = s := by
  unfold DemoScan.takes at untaken
  unfold takeSample
  split at untaken
  next fresh =>
    rw [if_pos fresh, if_neg (of_decide_eq_false untaken)]
  next started =>
    rw [if_neg started]
    split at untaken
    next none_yet =>
      rw [if_pos none_yet, if_neg (of_decide_eq_false untaken)]
    next => cases untaken

/-- A call that evaluates a window, by what becomes of the label. -/
inductive WindowTurn (st : ScanStatics) (scan : DemoScan) (now : Int) (w : RateWindow) :
    ScanStatics → DemoScan → List ScanEvent → Prop
  | unlabelled (unknown : w.label = .unknown) : WindowTurn st scan now w st scan [.window w]
  | changed (known : w.label ≠ .unknown) (other : w.label ≠ st.state) :
    WindowTurn st scan now w { st with state := w.label, stateSince := now, sampled := false } scan
      [.window w]
  | waiting (known : w.label ≠ .unknown) (same : w.label = st.state)
    (wait : st.sampled = true ∨ now - st.stateSince < kSettle) :
    WindowTurn st scan now w st scan [.window w]
  | passed (known : w.label ≠ .unknown) (same : w.label = st.state) (fresh : st.sampled = false)
    (untaken : scan.takes st.state = false) :
    WindowTurn st scan now w { st with sampled := true } scan [.window w]
  | sampled (ram : HostRam) (known : w.label ≠ .unknown) (same : w.label = st.state)
    (fresh : st.sampled = false) (settled : kSettle ≤ now - st.stateSince)
    (taken : scan.takes st.state = true) :
    WindowTurn st scan now w { st with sampled := true } (takeSample scan ram st.state)
      [.window w, .sample now st.state]

theorem afterWindow_turn (st : ScanStatics) (scan : DemoScan) (trace : List ScanEvent)
    (ram : HostRam) (now : Int) (w : RateWindow) :
    ∃ st' scan' events, WindowTurn st scan now w st' scan' events ∧
      afterWindow st scan (trace ++ [.window w]) ram now w.label =
        ⟨some st', scan', trace ++ events⟩ := by
  unfold afterWindow
  split
  next unknown => exact ⟨st, scan, _, .unlabelled unknown, rfl⟩
  next known =>
    split
    next other => exact ⟨_, scan, _, .changed known other, rfl⟩
    next same =>
      have same : w.label = st.state := by simpa using same
      split
      next wait =>
        have wait : st.sampled = true ∨ now - st.stateSince < kSettle := by simpa using wait
        exact ⟨st, scan, _, .waiting known same wait, rfl⟩
      next go =>
        have go : st.sampled = false ∧ kSettle ≤ now - st.stateSince := by simpa using go
        cases takes : scan.takes st.state with
        | true =>
          refine ⟨_, _, _, .sampled ram known same go.1 go.2 takes, ?_⟩
          rw [if_pos rfl, List.append_assoc]
          rfl
        | false =>
          refine ⟨_, scan, _, .passed known same go.1 takes, ?_⟩
          rw [takeSample_untaken takes]
          rfl

theorem demoScanPoll_turn (armed : Bool) (label : UInt64 → Int → ScanState) (r : ScanRun)
    (call : PollCall) :
    demoScanPoll armed label r call = r ∨
    demoScanPoll armed label r call = { r with statics := some (r.staticsAt call) } ∨
    ∃ w st' scan' events,
      w.start = (r.staticsAt call).windowStart ∧ w.stop = call.now ∧
      w.label = label (call.lists - (r.staticsAt call).windowBase)
        ((call.now - (r.staticsAt call).windowStart).tdiv 1000000) ∧
      armed = true ∧ call.ram.isSome ∧ 500000000 ≤ call.now - (r.staticsAt call).windowStart ∧
      WindowTurn { r.staticsAt call with windowStart := call.now, windowBase := call.lists } r.scan
        call.now w st' scan' events ∧
      demoScanPoll armed label r call = ⟨some st', scan', r.trace ++ events⟩ := by
  cases armed with
  | false => exact Or.inl rfl
  | true =>
    cases ram : call.ram with
    | none =>
      left
      simp [demoScanPoll, ram]
    | some memory =>
      right
      by_cases early : call.now - (r.staticsAt call).windowStart < 500000000
      · left
        simp [demoScanPoll, ram, early]
      · right
        obtain ⟨st', scan', events, turns, after⟩ := afterWindow_turn
          { r.staticsAt call with windowStart := call.now, windowBase := call.lists } r.scan
          r.trace memory call.now
          ⟨(r.staticsAt call).windowStart, call.now,
            label (call.lists - (r.staticsAt call).windowBase)
              ((call.now - (r.staticsAt call).windowStart).tdiv 1000000)⟩
        refine ⟨_, st', scan', events, rfl, rfl, rfl, rfl, rfl, by omega, turns, ?_⟩
        rw [← after]
        simp [demoScanPoll, ram, early]

end Rayman2Recomp
