import Rayman2Recomp.DemoScanPoll

open Runs

namespace Rayman2Recomp

def ScanEvent.window? : ScanEvent → Option RateWindow
  | .window w => some w
  | .sample _ _ => none

def windowsOf (trace : List ScanEvent) : List RateWindow := trace.filterMap ScanEvent.window?

/-- The state after some windows: the last label that is one. -/
def stateAfter (windows : List RateWindow) : ScanState :=
  windows.foldl (fun state w => if w.label = .unknown then state else w.label) .unknown

def Spans : Int → List RateWindow → Int → Prop
  | start, [], stop => start = stop
  | start, w :: rest, stop => w.start = start ∧ Spans w.stop rest stop

/-- From the change to `state` on, and for the settling time at least, every
window up to `time` was labelled `state`. -/
def SettledStay (windows : List RateWindow) (state : ScanState) (time : Int) : Prop :=
  ∃ earlier first rest, windows = earlier ++ first :: rest ∧ stateAfter earlier ≠ state ∧
    (∀ w ∈ first :: rest, w.label = state) ∧ first.stop + kSettle ≤ time ∧
    Spans first.stop rest time

def RateWindow.Leaves (w : RateWindow) (state : ScanState) : Prop :=
  w.label ≠ .unknown ∧ w.label ≠ state

def SamplesSettled (trace : List ScanEvent) : Prop :=
  ∀ before time state after, trace = before ++ .sample time state :: after →
    SettledStay (windowsOf before) state time

def SampledOnce (trace : List ScanEvent) : Prop :=
  ∀ before time state between time' state' after,
    trace = before ++ .sample time state :: (between ++ .sample time' state' :: after) →
      ∃ w ∈ windowsOf between, w.Leaves state

def IdleFirst (trace : List ScanEvent) : Prop :=
  ∀ before time after, trace = before ++ .sample time .busy :: after →
    ∃ time', .sample time' .idle ∈ before

section Lists

variable {trace : List ScanEvent} {w : RateWindow} {time : Int} {state : ScanState}

theorem snoc_split {α : Type} {xs before after : List α} {x y : α}
    (h : xs ++ [y] = before ++ x :: after) :
    (after = [] ∧ xs = before ∧ y = x) ∨ ∃ rest, after = rest ++ [y] ∧ xs = before ++ x :: rest := by
  rcases List.eq_nil_or_concat after with rfl | ⟨rest, last, rfl⟩
  · obtain ⟨front, back⟩ := List.append_inj' h rfl
    exact Or.inl ⟨rfl, front, (List.cons.inj back).1⟩
  · right
    rw [List.concat_eq_append, ← List.cons_append, ← List.append_assoc] at h
    obtain ⟨front, back⟩ := List.append_inj' h rfl
    obtain rfl := (List.cons.inj back).1
    exact ⟨rest, List.concat_eq_append, front⟩

theorem windowsOf_append (before after : List ScanEvent) :
    windowsOf (before ++ after) = windowsOf before ++ windowsOf after := List.filterMap_append

@[simp] theorem windowsOf_window (w : RateWindow) : windowsOf [.window w] = [w] := rfl

@[simp] theorem windowsOf_sample (time : Int) (state : ScanState) :
    windowsOf [.sample time state] = [] := rfl

theorem stateAfter_snoc (windows : List RateWindow) (w : RateWindow) :
    stateAfter (windows ++ [w]) = if w.label = .unknown then stateAfter windows else w.label := by
  rw [stateAfter, List.foldl_append]
  rfl

theorem spans_snoc {start stop : Int} {windows : List RateWindow} (spans : Spans start windows stop)
    (follows : w.start = stop) : Spans start (windows ++ [w]) w.stop := by
  induction windows generalizing start with
  | nil =>
    have here : start = stop := spans
    exact ⟨follows.trans here.symm, rfl⟩
  | cons v rest ih => exact ⟨spans.1, ih spans.2⟩

/-- A sample in a trace that ends with a window stands before that window. -/
theorem window_split {before after : List ScanEvent}
    (split : trace ++ [.window w] = before ++ .sample time state :: after) :
    ∃ rest, after = rest ++ [.window w] ∧ trace = before ++ .sample time state :: rest := by
  rcases snoc_split split with ⟨_, _, impossible⟩ | earlier
  · cases impossible
  · exact earlier

theorem samplesSettled_window (settled : SamplesSettled trace) :
    SamplesSettled (trace ++ [.window w]) := by
  intro before time state after split
  obtain ⟨rest, _, earlier⟩ := window_split split
  exact settled before time state rest earlier

theorem sampledOnce_window (once : SampledOnce trace) : SampledOnce (trace ++ [.window w]) := by
  intro before time state between time' state' after split
  rw [← List.cons_append, ← List.append_assoc] at split
  obtain ⟨rest, _, earlier⟩ := window_split split
  rw [List.append_assoc] at earlier
  exact once before time state between time' state' rest earlier

theorem idleFirst_window (first : IdleFirst trace) : IdleFirst (trace ++ [.window w]) := by
  intro before time after split
  obtain ⟨rest, _, earlier⟩ := window_split split
  exact first before time rest earlier

theorem samplesSettled_sample (settled : SamplesSettled trace)
    (stay : SettledStay (windowsOf trace) state time) :
    SamplesSettled (trace ++ [.sample time state]) := by
  intro before time' state' after split
  rcases snoc_split split with ⟨_, rfl, same⟩ | ⟨rest, _, earlier⟩
  · cases same
    exact stay
  · exact settled before time' state' rest earlier

end Lists

/-- A sample's stay is over, or it is the present one and its flag is set. -/
def StaysMarked (st : ScanStatics) (trace : List ScanEvent) : Prop :=
  ∀ before time state after, trace = before ++ .sample time state :: after →
    (∃ w ∈ windowsOf after, w.Leaves state) ∨ st.state = state ∧ st.sampled = true

structure OnceHeld (st : ScanStatics) (scan : DemoScan) (trace : List ScanEvent) : Prop where
  marked : StaysMarked st trace
  once : SampledOnce trace
  idleFirst : IdleFirst trace
  started : scan.haveIdleSnapshot = true ∨ scan.haveCandidates = true →
    ∃ time, .sample time .idle ∈ trace

section Once

variable {st st' : ScanStatics} {scan : DemoScan} {trace : List ScanEvent} {w : RateWindow}

theorem onceHeld_window (held : OnceHeld st scan trace)
    (turns : w.Leaves st.state ∨ st'.state = st.state ∧ (st.sampled = true → st'.sampled = true)) :
    OnceHeld st' scan (trace ++ [.window w]) := by
  refine ⟨?_, sampledOnce_window held.once, idleFirst_window held.idleFirst, fun started => ?_⟩
  · intro before time state after split
    obtain ⟨rest, rfl, earlier⟩ := window_split split
    rw [windowsOf_append, windowsOf_window]
    rcases held.marked before time state rest earlier with ⟨v, mem, leaves⟩ | ⟨same, flag⟩
    · exact Or.inl ⟨v, List.mem_append_left _ mem, leaves⟩
    · rcases turns with leaves | ⟨stays, keeps⟩
      · rw [same] at leaves
        exact Or.inl ⟨w, List.mem_append_right _ List.mem_cons_self, leaves⟩
      · exact Or.inr ⟨stays.trans same, keeps flag⟩
  · obtain ⟨time, mem⟩ := held.started started
    exact ⟨time, List.mem_append_left _ mem⟩

theorem takes_idle_first {state : ScanState} (taken : scan.takes state = true) :
    state = .idle ∨ scan.haveIdleSnapshot = true ∨ scan.haveCandidates = true := by
  unfold DemoScan.takes at taken
  split at taken
  next => exact Or.inl (of_decide_eq_true taken)
  next already =>
    right
    cases snapshot : scan.haveIdleSnapshot with
    | true => exact Or.inl rfl
    | false =>
      right
      simpa [snapshot] using already

/-- While a sample is due, every earlier one's stay is over. -/
theorem stays_left (marked : StaysMarked st trace) (fresh : st.sampled = false)
    {before after : List ScanEvent} {time : Int} {state : ScanState}
    (split : trace = before ++ .sample time state :: after) :
    ∃ w ∈ windowsOf after, w.Leaves state := by
  rcases marked before time state after split with left | ⟨_, flag⟩
  · exact left
  · rw [fresh] at flag
    cases flag

theorem onceHeld_sample (held : OnceHeld st scan trace) (ram : HostRam) (time : Int)
    (fresh : st.sampled = false) (taken : scan.takes st.state = true) :
    OnceHeld { st with sampled := true } (takeSample scan ram st.state)
      (trace ++ [.sample time st.state]) := by
  refine ⟨?_, ?_, ?_, fun _ => ?_⟩
  · intro before time' state after split
    rcases snoc_split split with ⟨_, _, same⟩ | ⟨rest, rfl, earlier⟩
    · cases same
      exact Or.inr ⟨rfl, rfl⟩
    · obtain ⟨w, mem, leaves⟩ := stays_left held.marked fresh earlier
      rw [windowsOf_append]
      exact Or.inl ⟨w, List.mem_append_left _ mem, leaves⟩
  · intro before time' state between time'' state' after split
    rw [← List.cons_append, ← List.append_assoc] at split
    rcases snoc_split split with ⟨_, whole, _⟩ | ⟨rest, _, earlier⟩
    · exact stays_left held.marked fresh whole
    · rw [List.append_assoc] at earlier
      exact held.once before time' state between time'' state' rest earlier
  · intro before time' after split
    rcases snoc_split split with ⟨_, rfl, same⟩ | ⟨rest, _, earlier⟩
    · have busy : st.state = .busy := (ScanEvent.sample.inj same).2
      rcases takes_idle_first taken with idle | before
      · rw [busy] at idle
        cases idle
      · exact held.started before
    · exact held.idleFirst before time' rest earlier
  · rcases takes_idle_first taken with idle | before
    · rw [idle]
      exact ⟨time, List.mem_append_right _ List.mem_cons_self⟩
    · obtain ⟨time', mem⟩ := held.started before
      exact ⟨time', List.mem_append_left _ mem⟩

theorem onceHeld_turn (held : OnceHeld st scan trace) {now : Int} {base : UInt64}
    {scan' : DemoScan} {events : List ScanEvent}
    (turns : WindowTurn { st with windowStart := now, windowBase := base } scan now w st' scan'
      events) : OnceHeld st' scan' (trace ++ events) := by
  cases turns with
  | unlabelled | waiting => exact onceHeld_window held (Or.inr ⟨rfl, id⟩)
  | changed known other => exact onceHeld_window held (Or.inl ⟨known, other⟩)
  | passed => exact onceHeld_window held (Or.inr ⟨rfl, fun _ => rfl⟩)
  | sampled ram known same fresh settled taken =>
    have windowed : OnceHeld { st with windowStart := now, windowBase := base } scan
        (trace ++ [.window w]) := onceHeld_window held (Or.inr ⟨rfl, id⟩)
    have next := onceHeld_sample windowed ram now fresh taken
    rwa [List.append_assoc] at next

end Once

/-- The stay that goes on: it began with the window that stopped at `since`, and
where it is `clean` all of its windows have its label. -/
def OngoingStay (windows : List RateWindow) (state : ScanState) (since stop : Int)
    (clean : Prop) : Prop :=
  ∃ earlier first rest, windows = earlier ++ first :: rest ∧ stateAfter earlier ≠ state ∧
    first.stop = since ∧ Spans first.stop rest stop ∧
    (clean → ∀ w ∈ first :: rest, w.label = state)

theorem ongoing_snoc {windows : List RateWindow} {state : ScanState} {since stop : Int}
    {clean clean' : Prop} {w : RateWindow} (stay : OngoingStay windows state since stop clean)
    (follows : w.start = stop) (keeps : clean' → clean ∧ w.label = state) :
    OngoingStay (windows ++ [w]) state since w.stop clean' := by
  obtain ⟨earlier, first, rest, split, fresh, begun, spans, labels⟩ := stay
  refine ⟨earlier, first, rest ++ [w], by rw [split]; simp, fresh, begun,
    spans_snoc spans follows, fun still => ?_⟩
  obtain ⟨was, same⟩ := keeps still
  rw [← List.cons_append, List.forall_mem_append]
  exact ⟨labels was, by simpa using same⟩

def ToSample (st : ScanStatics) (scan : DemoScan) : Prop :=
  st.state ≠ .unknown ∧ st.sampled = false ∧ scan.takes st.state = true

structure StayHeld (st : ScanStatics) (scan : DemoScan) (trace : List ScanEvent) : Prop where
  state : st.state = stateAfter (windowsOf trace)
  stay : st.state ≠ .unknown →
    OngoingStay (windowsOf trace) st.state st.stateSince st.windowStart (ToSample st scan)
  settled : SamplesSettled trace

section Stay

variable {st st' : ScanStatics} {scan scan' : DemoScan} {trace events : List ScanEvent}
  {w : RateWindow} {now : Int} {base : UInt64}

theorem stayHeld_window (held : StayHeld st scan trace) (start : w.start = st.windowStart)
    (stop : w.stop = now) {flag : Bool} (same : w.label = .unknown ∨ w.label = st.state)
    (keeps : st.state ≠ .unknown ∧ flag = false ∧ scan.takes st.state = true →
      ToSample st scan ∧ w.label = st.state) :
    StayHeld { st with windowStart := now, windowBase := base, sampled := flag } scan
      (trace ++ [.window w]) := by
  have windows : windowsOf (trace ++ [.window w]) = windowsOf trace ++ [w] := windowsOf_append _ _
  refine ⟨?_, fun known => ?_, samplesSettled_window held.settled⟩
  · rw [windows, stateAfter_snoc, ← held.state]
    rcases same with unknown | same
    · rw [if_pos unknown]
    · rw [same, ite_self]
  · rw [windows, ← stop]
    exact ongoing_snoc (held.stay known) start keeps

theorem stayHeld_turn (held : StayHeld st scan trace) (start : w.start = st.windowStart)
    (stop : w.stop = now) (kept : w.label = .unknown → ¬ ToSample st scan)
    (turns : WindowTurn { st with windowStart := now, windowBase := base } scan now w st' scan'
      events) : StayHeld st' scan' (trace ++ events) := by
  cases turns with
  | unlabelled unknown =>
    refine stayHeld_window held start stop (Or.inl unknown) fun waits => ?_
    exact absurd waits (kept unknown)
  | waiting known same wait =>
    exact stayHeld_window held start stop (Or.inr same) fun waits => ⟨waits, same⟩
  | passed known same fresh untaken =>
    refine stayHeld_window held start stop (Or.inr same) fun waits => ?_
    cases waits.2.1
  | changed known other =>
    have windows : windowsOf (trace ++ [.window w]) = windowsOf trace ++ [w] := windowsOf_append _ _
    refine ⟨?_, fun _ => ?_, samplesSettled_window held.settled⟩
    · rw [windows, stateAfter_snoc, if_neg known]
    · rw [windows]
      refine ⟨windowsOf trace, w, [], rfl, ?_, stop, stop, fun _ => by simp⟩
      rw [← held.state]
      exact other.symm
  | sampled ram known same fresh settled taken =>
    have windowed : StayHeld { st with windowStart := now, windowBase := base } scan
        (trace ++ [.window w]) :=
      stayHeld_window held start stop (Or.inr same) fun waits => ⟨waits, same⟩
    have labelled : st.state ≠ .unknown := fun unknown => known (same.trans unknown)
    obtain ⟨earlier, first, rest, split, before, begun, spans, labels⟩ := windowed.stay labelled
    have clean := labels ⟨labelled, fresh, taken⟩
    have long : first.stop + kSettle ≤ now := by
      have since : first.stop = st.stateSince := begun
      have waited : kSettle ≤ now - st.stateSince := settled
      omega
    have stay : SettledStay (windowsOf (trace ++ [.window w])) st.state now :=
      ⟨earlier, first, rest, split, before, clean, long, spans⟩
    have sampled := samplesSettled_sample windowed.settled stay
    rw [List.append_assoc] at sampled
    have windows : windowsOf (trace ++ ([.window w] ++ [.sample now st.state])) =
        windowsOf (trace ++ [.window w]) := by
      rw [← List.append_assoc, windowsOf_append _ [.sample now st.state], windowsOf_sample,
        List.append_nil]
    refine ⟨?_, fun _ => ?_, sampled⟩
    · exact windowed.state.trans (congrArg stateAfter windows.symm)
    · have passed : ToSample { st with windowStart := now, windowBase := base, sampled := true }
          (takeSample scan ram st.state) → False := fun waits => by cases waits.2.1
      refine windows ▸ ⟨earlier, first, rest, split, before, begun, spans, fun waits => ?_⟩
      exact (passed waits).elim

end Stay

section Runs

variable {armed : Bool} {label : UInt64 → Int → ScanState} {calls : List PollCall}

/-- The poll does not find a rate without a label in a stay that the tail would
still sample. -/
def KeepsLabel (armed : Bool) (label : UInt64 → Int → ScanState) (r : ScanRun)
    (call : PollCall) : Prop :=
  armed = true → call.ram.isSome → 500000000 ≤ call.now - (r.staticsAt call).windowStart →
    label (call.lists - (r.staticsAt call).windowBase)
      ((call.now - (r.staticsAt call).windowStart).tdiv 1000000) = .unknown →
    ¬ ToSample (r.staticsAt call) r.scan

theorem onceHeld_run (armed : Bool) (label : UInt64 → Int → ScanState) (calls : List PollCall) :
    ∀ call, OnceHeld ((run (demoScanPoll armed label) .start calls).staticsAt call)
      (run (demoScanPoll armed label) .start calls).scan
      (run (demoScanPoll armed label) .start calls).trace := by
  refine run_invariant (motive := fun r : ScanRun => ∀ call, OnceHeld (r.staticsAt call) r.scan r.trace)
    (fun call => ?_) (fun r call held other => ?_) calls
  · refine ⟨?_, ?_, ?_, ?_⟩ <;> simp [ScanRun.start, StaysMarked, SampledOnce, IdleFirst,
      DemoScan.start]
  · rcases demoScanPoll_turn armed label r call with same | same | turned
    · rw [same]
      exact held other
    · rw [same]
      exact held call
    · obtain ⟨w, st', scan', events, _, _, _, _, _, _, turns, same⟩ := turned
      rw [same]
      exact onceHeld_turn (held call) turns

theorem stayHeld_run
    (kept : EveryStep (demoScanPoll armed label) (KeepsLabel armed label) .start calls) :
    ∀ call, StayHeld ((run (demoScanPoll armed label) .start calls).staticsAt call)
      (run (demoScanPoll armed label) .start calls).scan
      (run (demoScanPoll armed label) .start calls).trace := by
  refine run_induction (motive := fun r : ScanRun => ∀ call, StayHeld (r.staticsAt call) r.scan r.trace)
    (fun call => ?_) (fun r call held keeps other => ?_) kept
  · refine ⟨rfl, fun known => absurd rfl known, ?_⟩
    simp [ScanRun.start, SamplesSettled]
  · rcases demoScanPoll_turn armed label r call with same | same | turned
    · rw [same]
      exact held other
    · rw [same]
      exact held call
    · obtain ⟨w, st', scan', events, start, stop, labelled, on, there, late, turns, same⟩ := turned
      rw [same]
      refine stayHeld_turn (held call) start stop (fun unknown => ?_) turns
      exact keeps on there late (labelled.symm.trans unknown)

/-- A stay is sampled once, and no demo before a title screen. Every sample is of
a settled state in a run in which no stay that is still to be sampled meets a rate
without a label. -/
theorem samples_settled (armed : Bool) (label : UInt64 → Int → ScanState)
    (calls : List PollCall) :
    SampledOnce (run (demoScanPoll armed label) .start calls).trace ∧
    IdleFirst (run (demoScanPoll armed label) .start calls).trace ∧
    (EveryStep (demoScanPoll armed label) (KeepsLabel armed label) .start calls →
      ∀ before, before <+: calls →
        SamplesSettled (run (demoScanPoll armed label) .start before).trace) := by
  have once := onceHeld_run armed label calls ⟨none, 0, 0, 0, 0⟩
  refine ⟨once.once, once.idleFirst, fun kept before h => ?_⟩
  obtain ⟨rest, rfl⟩ := h
  exact (stayHeld_run (everyStep_append.mp kept).1 ⟨none, 0, 0, 0, 0⟩).settled

/-- Half a second at thirty lists a second, in the middle of a title screen, does
not start its three seconds again. -/
theorem sample_across_unlabelled :
    ¬ ∀ calls : List PollCall, calls.Pairwise (fun a b => a.now ≤ b.now) →
      (∀ call ∈ calls, call.windowInit ≤ call.sinceInit ∧ call.sinceInit ≤ call.now) →
      SamplesSettled (run (demoScanPoll true rateLabel) .start calls).trace := by
  intro settled
  have samples := settled
    [⟨some fun _ => 0, 0, 0, 0, 0⟩, ⟨some fun _ => 0, 0, 0, 500000000, 0⟩,
      ⟨some fun _ => 0, 0, 0, 1000000000, 15⟩, ⟨some fun _ => 0, 0, 0, 3500000000, 15⟩]
    (by simp) (by simp)
  have trace : (run (demoScanPoll true rateLabel) .start
      [⟨some fun _ => 0, 0, 0, 0, 0⟩, ⟨some fun _ => 0, 0, 0, 500000000, 0⟩,
        ⟨some fun _ => 0, 0, 0, 1000000000, 15⟩, ⟨some fun _ => 0, 0, 0, 3500000000, 15⟩]).trace =
      [.window ⟨0, 500000000, .idle⟩, .window ⟨500000000, 1000000000, .unknown⟩,
        .window ⟨1000000000, 3500000000, .idle⟩, .sample 3500000000 .idle] := by
    simp [run, demoScanPoll, ScanRun.start, ScanRun.staticsAt, afterWindow, rateLabel,
      DemoScan.takes, DemoScan.start, kSettle]
  rw [trace] at samples
  obtain ⟨earlier, first, rest, split, before, labels, _, _⟩ := samples
    [.window ⟨0, 500000000, .idle⟩, .window ⟨500000000, 1000000000, .unknown⟩,
      .window ⟨1000000000, 3500000000, .idle⟩] 3500000000 .idle [] rfl
  have windows : earlier ++ first :: rest =
      [⟨0, 500000000, .idle⟩, ⟨500000000, 1000000000, .unknown⟩,
        ⟨1000000000, 3500000000, .idle⟩] := split.symm
  cases earlier with
  | nil =>
    obtain ⟨rfl, rfl⟩ := List.cons.inj windows
    have unknown := labels ⟨500000000, 1000000000, .unknown⟩ (by simp)
    cases unknown
  | cons one earlier =>
    obtain ⟨rfl, later⟩ := List.cons.inj windows
    cases earlier with
    | nil => exact before rfl
    | cons two earlier =>
      obtain ⟨rfl, last⟩ := List.cons.inj later
      cases earlier with
      | nil => exact before rfl
      | cons three earlier => simp at last

end Runs

end Rayman2Recomp
