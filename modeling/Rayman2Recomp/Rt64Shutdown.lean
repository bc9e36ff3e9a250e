import Rayman2Recomp.Rt64Context
import Mathlib.Data.List.Count

open Runs

namespace Rayman2Recomp

inductive Script.CallsAhead : Script → Prop
  | now (call : AppCall) (next : call.Reply → Script) : CallsAhead (.op (.app call) next)
  | later (op : ContextOp) (next : op.Reply → Script) (reply : op.Reply)
    (ahead : CallsAhead (next reply)) : CallsAhead (.op op next)

/-- The thread stands between its test and its last call into `app`. -/
def ContextPc.CallsAhead : ContextPc → Prop
  | .inside script => script.CallsAhead
  | _ => False

def AppCall.someReply : (call : AppCall) → call.Reply
  | .readRdram => false
  | .readAppWindow => false
  | .getRefreshRate => (0 : UInt32)
  | .readResolution => Resolution.original
  | .readResolutionMultiplier => (0 : Float)
  | .rspReset | .loadUCodeGBI _ _ _ | .processDisplayLists _ _ _ | .listProcessBegin
  | .setColorImage _ _ _ _ | .setOtherMode _ _ | .fillRect _ _ _ _ | .fullSync
  | .listProcessEnd | .updateScreen | .setFullScreen _ | .updateUserConfig _ => ()

section Uses

variable {ι : Type} {uses : List (ι × AppUse)}

def endings (uses : List (ι × AppUse)) : Nat := uses.countP fun use => use.2.isFinish

def NoUseAfterEnd (uses : List (ι × AppUse)) : Prop :=
  uses.Pairwise fun earlier later => earlier.2.isFinish → later.2.isFinish

theorem endings_snoc (uses : List (ι × AppUse)) (t : ι) (use : AppUse) :
    endings (uses ++ [(t, use)]) = endings uses + if use.isFinish then 1 else 0 := by
  rw [endings, List.countP_append, List.countP_singleton]
  rfl

theorem noUseAfterEnd_snoc (uses : List (ι × AppUse)) (t : ι) (use : AppUse) :
    NoUseAfterEnd (uses ++ [(t, use)]) ↔
      NoUseAfterEnd uses ∧ (0 < endings uses → use.isFinish) := by
  unfold NoUseAfterEnd endings
  rw [List.pairwise_append, List.countP_pos_iff]
  simp only [List.pairwise_singleton, List.mem_singleton, forall_eq, true_and]
  refine and_congr_right fun _ => ⟨?_, ?_⟩
  · rintro after ⟨earlier, mem, finish⟩
    exact after earlier mem finish
  · intro after earlier mem finish
    exact after ⟨earlier, mem, finish⟩

end Uses

/-- One atomic step of a thread: where it stood and stands, the flag behind it,
and what it asked of `app`. -/
inductive ContextMoves (usable ended : Bool) :
    ContextPc → ContextPc → Bool → List AppUse → Prop
  | refuse : ContextMoves usable ended .idle .idle ended []
  | enter (script : Script) (passed : usable = true) :
    ContextMoves usable ended .idle (.inside script) ended []
  | exchange (pc : ContextPc) (first : ended = false) (leaves : pc = .ending ∨ pc = .idle) :
    ContextMoves usable ended .idle pc true []
  | answer (a : ContextAnswer) : ContextMoves usable ended (.inside (.done a)) .idle ended []
  | call (call : AppCall) (next : call.Reply → Script) (reply : call.Reply) :
    ContextMoves usable ended (.inside (.op (.app call) next)) (.inside (next reply)) ended
      [.call call]
  | count (op : ContextOp) (next : op.Reply → Script) (reply : op.Reply) :
    ContextMoves usable ended (.inside (.op op next)) (.inside (next reply)) ended []
  | finish : ContextMoves usable ended .ending .idle ended [.finish]

variable {ι ρ : Type} {s s' : Rt64Context ι ρ} {t : ι}

/-- The one winner of the exchange is the only thread that may end `app`. -/
structure EndHeld (s : Rt64Context ι ρ) : Prop where
  flagged : ∀ u, s.pc u = .ending → s.ended = true
  single : ∀ u v, s.pc u = .ending → s.pc v = .ending → u = v
  fresh : ∀ u, s.pc u = .ending → endings s.uses = 0
  invoked : 0 < endings s.uses → s.ended = true
  once : endings s.uses ≤ 1

theorem endHeld_start (app : Bool) (calls : ι → List (ContextCall ρ)) :
    EndHeld (Rt64Context.start app calls) := by
  refine ⟨?_, ?_, ?_, ?_, ?_⟩ <;> simp [Rt64Context.start, endings]

variable [DecidableEq ι]

def ContextTurned (s s' : Rt64Context ι ρ) (t : ι) : Prop :=
  (s'.ended = s.ended ∧ s'.uses = s.uses ∧ s'.pc = s.pc) ∨
    ∃ pc added, ContextMoves s.usable s.ended (s.pc t) pc s'.ended added ∧
      s'.uses = s.uses ++ (added.map fun use => (t, use)) ∧ s'.pc = Function.update s.pc t pc

theorem endHeld_stays {pc : ContextPc} (held : EndHeld s)
    (threads : s'.pc = Function.update s.pc t pc) (stays : pc ≠ .ending)
    (ended : s'.ended = s.ended) (uses : endings s'.uses = endings s.uses) : EndHeld s' := by
  have before : ∀ u, s'.pc u = .ending → s.pc u = .ending := by
    intro u now
    rw [threads] at now
    rcases update_cases (P := (· = ContextPc.ending)) now with ⟨_, ending⟩ | ⟨_, before⟩
    · exact absurd ending stays
    · exact before
  have flag : s.ended = true → s'.ended = true := ended.trans
  refine ⟨fun u h => flag (held.flagged u (before u h)),
    fun u v hu hv => held.single u v (before u hu) (before v hv), fun u h => ?_, fun h => ?_, ?_⟩
  · rw [uses]
    exact held.fresh u (before u h)
  · rw [uses] at h
    exact flag (held.invoked h)
  · rw [uses]
    exact held.once

theorem endHeld_turned (held : EndHeld s) (turned : ContextTurned s s' t) : EndHeld s' := by
  rcases turned with ⟨ended, uses, threads⟩ | ⟨pc, added, moves, uses, threads⟩
  · refine ⟨?_, ?_, ?_, ?_, ?_⟩
    · rw [ended, threads]; exact held.flagged
    · rw [threads]; exact held.single
    · rw [uses, threads]; exact held.fresh
    · rw [uses, ended]; exact held.invoked
    · rw [uses]; exact held.once
  · generalize stands : s.pc t = place at moves
    generalize flag : s'.ended = flagged at moves
    have silent (none_added : added = []) : endings s'.uses = endings s.uses := by
      rw [uses, none_added, List.map_nil, List.append_nil]
    cases moves with
    | refuse | enter | answer | count =>
      exact endHeld_stays held threads nofun flag (silent rfl)
    | call call next reply =>
      refine endHeld_stays held threads nofun flag ?_
      rw [uses, List.map_singleton, endings_snoc]
      rfl
    | exchange _ first leaves =>
      have nobody : ∀ u, s.pc u ≠ .ending := by
        intro u ending
        have flagged := held.flagged u ending
        rw [first] at flagged
        cases flagged
      have unused : endings s.uses = 0 := by
        by_contra used
        have flagged := held.invoked (by omega)
        rw [first] at flagged
        cases flagged
      have mine : ∀ u, s'.pc u = .ending → u = t := by
        intro u now
        rw [threads] at now
        rcases update_cases (P := (· = ContextPc.ending)) now with ⟨same, _⟩ | ⟨_, before⟩
        · exact same
        · exact absurd before (nobody u)
      have same := silent rfl
      exact ⟨fun _ _ => flag, fun u v hu hv => (mine u hu).trans (mine v hv).symm,
        fun _ _ => same.trans unused, fun _ => flag, by omega⟩
    | finish =>
      have unused := held.fresh t stands
      have counted : endings s'.uses = 1 := by
        rw [uses, List.map_singleton, endings_snoc, unused]
        rfl
      have nobody : ∀ u, s'.pc u ≠ .ending := by
        intro u now
        rw [threads] at now
        rcases update_cases (P := (· = ContextPc.ending)) now with ⟨_, ending⟩ | ⟨other, before⟩
        · cases ending
        · exact other (held.single u t before stands)
      have ended := held.flagged t stands
      exact ⟨fun u h => absurd h (nobody u), fun u _ h => absurd h (nobody u),
        fun u h => absurd h (nobody u), fun _ => flag.trans ended, by omega⟩

structure QuietEnd (s : Rt64Context ι ρ) : Prop where
  quiet : 0 < endings s.uses → ∀ u, ¬ (s.pc u).CallsAhead
  safe : NoUseAfterEnd s.uses

/-- `end()` is called while no entry point stands between its test and its last
call into `app`. -/
def EndsAlone (s : Rt64Context ι ρ) (choice : ContextTurn ι) : Prop :=
  s.pc choice.thread = .ending → ∀ u, ¬ (s.pc u).CallsAhead

/-- What a thread has ahead of it after a step, it had before, unless it has just
passed its test. -/
theorem callsAhead_before {place pc : ContextPc} {usable ended flag : Bool} {added : List AppUse}
    (moves : ContextMoves usable ended place pc flag added) (ahead : pc.CallsAhead) :
    place.CallsAhead ∨ usable = true := by
  cases moves with
  | refuse | answer | finish => cases ahead
  | enter script passed => exact Or.inr passed
  | exchange _ _ leaves => rcases leaves with rfl | rfl <;> cases ahead
  | call call next reply => exact Or.inl (.now call next)
  | count op next reply => exact Or.inl (.later op next reply ahead)

theorem quietEnd_turned (held : EndHeld s) (quiet : QuietEnd s) (turned : ContextTurned s s' t)
    (alone : s.pc t = .ending → ∀ u, ¬ (s.pc u).CallsAhead) : QuietEnd s' := by
  rcases turned with ⟨_, uses, threads⟩ | ⟨pc, added, moves, uses, threads⟩
  · refine ⟨?_, ?_⟩
    · rw [uses, threads]
      exact quiet.quiet
    · rw [uses]
      exact quiet.safe
  · have kept : (∀ u, ¬ (s.pc u).CallsAhead) → (s.usable → False) →
        ∀ u, ¬ (s'.pc u).CallsAhead := by
      intro nobody unusable u ahead
      rw [threads] at ahead
      rcases update_cases (P := ContextPc.CallsAhead) ahead with ⟨rfl, now⟩ | ⟨_, before⟩
      · rcases callsAhead_before moves now with before | usable
        · exact nobody _ before
        · exact unusable usable
      · exact nobody u before
    have unusable : s.ended = true → s.usable → False := by
      intro ended usable
      simp [Rt64Context.usable, ended] at usable
    have later : 0 < endings s.uses → ∀ u, ¬ (s'.pc u).CallsAhead := fun used =>
      kept (quiet.quiet used) (unusable (held.invoked used))
    generalize stands : s.pc t = place at moves
    generalize s'.ended = flagged at moves
    cases moves with
    | refuse | enter | exchange | answer | count =>
      rw [List.map_nil, List.append_nil] at uses
      rw [← uses] at later
      exact ⟨later, uses ▸ quiet.safe⟩
    | call call next reply =>
      have unused : ¬ 0 < endings s.uses := by
        intro used
        have mine := quiet.quiet used t
        rw [stands] at mine
        exact mine (.now call next)
      rw [List.map_singleton] at uses
      refine ⟨fun used => ?_, ?_⟩
      · rw [uses, endings_snoc] at used
        exact absurd used unused
      · rw [uses, noUseAfterEnd_snoc]
        exact ⟨quiet.safe, fun used => absurd used unused⟩
    | finish =>
      refine ⟨fun _ => kept (alone stands) (unusable (held.flagged t stands)), ?_⟩
      rw [uses, List.map_singleton, noUseAfterEnd_snoc]
      exact ⟨quiet.safe, fun _ => rfl⟩

variable [DecidableEq ρ]

theorem enterContext_turned (s : Rt64Context ι ρ) (t : ι) (call : ContextCall ρ)
    (idle : s.pc t = .idle) : ContextTurned s (enterContext s t call) t := by
  unfold ContextTurned
  rw [idle]
  cases call with
  | entry point =>
    cases usable : s.usable with
    | true =>
      right
      simp only [enterContext, usable, if_true]
      exact ⟨_, [], .enter point.script rfl, (List.append_nil _).symm, rfl⟩
    | false =>
      left
      simp [enterContext, usable, Rt64Context.answer]
  | shutdown =>
    cases ended : s.ended with
    | true =>
      left
      simp [enterContext, ended]
    | false =>
      right
      have leaves : (if s.app then ContextPc.ending else .idle) = .ending ∨
          (if s.app then ContextPc.ending else .idle) = .idle := by
        cases s.app
        · exact Or.inr rfl
        · exact Or.inl rfl
      simp only [enterContext, ended, Bool.false_eq_true, if_false]
      exact ⟨_, [], .exchange _ rfl leaves, (List.append_nil _).symm, rfl⟩

theorem contextStep_turned (s : Rt64Context ι ρ) (choice : ContextTurn ι) :
    ContextTurned s (contextStep s choice) choice.thread := by
  unfold contextStep
  dsimp only
  cases pc : s.pc choice.thread with
  | idle =>
    dsimp only
    split
    next => exact Or.inl ⟨rfl, rfl, rfl⟩
    next call rest _ =>
      exact enterContext_turned
        { s with calls := Function.update s.calls choice.thread rest } choice.thread call pc
  | inside script =>
    right
    rw [pc]
    cases script with
    | done a => exact ⟨_, [], .answer a, (List.append_nil _).symm, rfl⟩
    | op op next =>
      cases op with
      | app call => exact ⟨_, [.call call], .call call next _, rfl, rfl⟩
      | _ => exact ⟨_, [], .count _ next _, (List.append_nil _).symm, rfl⟩
  | ending =>
    right
    rw [pc]
    exact ⟨_, [.finish], .finish, rfl, rfl⟩

theorem quietEnd_run {app : Bool} {calls : ι → List (ContextCall ρ)}
    {choices : List (ContextTurn ι)}
    (alone : EveryStep contextStep EndsAlone (Rt64Context.start app calls) choices) :
    EndHeld (run contextStep (Rt64Context.start app calls) choices) ∧
      QuietEnd (run contextStep (Rt64Context.start app calls) choices) := by
  have start : QuietEnd (Rt64Context.start app calls) := by
    refine ⟨?_, ?_⟩ <;> simp [Rt64Context.start, endings, NoUseAfterEnd]
  refine run_induction (motive := fun s => EndHeld s ∧ QuietEnd s)
    ⟨endHeld_start app calls, start⟩ (fun s choice holds here => ?_) alone
  have turned := contextStep_turned s choice
  exact ⟨endHeld_turned holds.1 turned, quietEnd_turned holds.1 holds.2 turned here⟩

theorem endHeld_run (app : Bool) (calls : ι → List (ContextCall ρ))
    (choices : List (ContextTurn ι)) :
    EndHeld (run contextStep (Rt64Context.start app calls) choices) :=
  run_invariant (motive := EndHeld) (endHeld_start app calls)
    (fun s choice held => endHeld_turned held (contextStep_turned s choice)) choices

theorem quiet_forever {s : Rt64Context ι ρ} (held : EndHeld s) (quiet : QuietEnd s)
    (used : 0 < endings s.uses) (more : List (ContextTurn ι)) :
    NoUseAfterEnd (run contextStep s more).uses := by
  have ended : EndHeld (run contextStep s more) ∧ QuietEnd (run contextStep s more) ∧
      0 < endings (run contextStep s more).uses := by
    refine run_invariant (motive := fun s => EndHeld s ∧ QuietEnd s ∧ 0 < endings s.uses)
      ⟨held, quiet, used⟩ (fun s choice holds => ?_) more
    obtain ⟨held, quiet, used⟩ := holds
    have turned := contextStep_turned s choice
    refine ⟨endHeld_turned held turned, quietEnd_turned held quiet turned fun ending => ?_, ?_⟩
    · have unused := held.fresh choice.thread ending
      omega
    · have grows : s.uses <+: (contextStep s choice).uses := by
        rcases turned with ⟨_, uses, _⟩ | ⟨_, added, _, uses, _⟩
        · exact ⟨[], by rw [List.append_nil, uses]⟩
        · exact ⟨_, uses.symm⟩
      have counted := grows.sublist.countP_le (p := fun use => use.2.isFinish)
      exact Nat.lt_of_lt_of_le used counted
  exact ended.2.1.safe

theorem use_after_end {s : Rt64Context ι ρ} {u : ι} {script : Script} (ahead : script.CallsAhead)
    (stands : s.pc u = .inside script) (used : 0 < endings s.uses) :
    ∃ more, ¬ NoUseAfterEnd (run contextStep s more).uses := by
  have called (s : Rt64Context ι ρ) (call : AppCall) (next : call.Reply → Script)
      (stands : s.pc u = .inside (.op (.app call) next)) (used : 0 < endings s.uses) :
      ¬ NoUseAfterEnd (run contextStep s [⟨u, AppCall.someReply⟩]).uses := by
    have uses : (run contextStep s [⟨u, AppCall.someReply⟩]).uses = s.uses ++ [(u, .call call)] := by
      simp [contextStep, stands, Rt64Context.perform, Rt64Context.use, Rt64Context.goto]
    rw [uses, noUseAfterEnd_snoc]
    intro safe
    cases safe.2 used
  induction ahead generalizing s with
  | now call next => exact ⟨_, called s call next stands used⟩
  | later op next reply ahead ih =>
    cases op with
    | app call => exact ⟨_, called s call next stands used⟩
    | _ =>
      have place : (contextStep s ⟨u, AppCall.someReply⟩).pc u = .inside (next reply) := by
        simp [contextStep, stands, Rt64Context.goto, Rt64Context.perform]
      have uses : (contextStep s ⟨u, AppCall.someReply⟩).uses = s.uses := by
        simp [contextStep, stands, Rt64Context.goto, Rt64Context.perform]
      obtain ⟨more, unsafe_run⟩ := ih place (uses ▸ used)
      exact ⟨⟨u, AppCall.someReply⟩ :: more, unsafe_run⟩

/-- `end()` in the middle of an entry point leaves a schedule that calls into the
ended `app`. -/
theorem use_after_interruption {s : Rt64Context ι ρ} {choice : ContextTurn ι} {u : ι}
    (ending : s.pc choice.thread = .ending) (ahead : (s.pc u).CallsAhead) :
    ∃ more, ¬ NoUseAfterEnd (run contextStep (contextStep s choice) more).uses := by
  have other : u ≠ choice.thread := by
    rintro rfl
    rw [ending] at ahead
    cases ahead
  have place : (contextStep s choice).pc u = s.pc u := by
    simp [contextStep, ending, Rt64Context.goto, Rt64Context.use, Function.update_of_ne other]
  have uses : (contextStep s choice).uses = s.uses ++ [(choice.thread, .finish)] := by
    simp [contextStep, ending, Rt64Context.goto, Rt64Context.use]
  have used : 0 < endings (contextStep s choice).uses := by
    rw [uses, endings_snoc]
    exact Nat.succ_pos _
  cases stands : s.pc u with
  | inside script =>
    rw [stands] at ahead
    exact use_after_end ahead (place.trans stands) used
  | idle | ending =>
    rw [stands] at ahead
    cases ahead

theorem endsAlone_of_safe {app : Bool} {calls : ι → List (ContextCall ρ)}
    {choices : List (ContextTurn ι)}
    (safe : ∀ before, before <+: choices →
      0 < endings (run contextStep (Rt64Context.start app calls) before).uses →
      ∀ more, NoUseAfterEnd (run contextStep (Rt64Context.start app calls) (before ++ more)).uses) :
    EveryStep contextStep EndsAlone (Rt64Context.start app calls) choices := by
  induction choices using List.reverseRecOn with
  | nil => trivial
  | append_singleton es choice ih =>
    rw [everyStep_snoc]
    refine ⟨ih fun before h => safe before (h.trans (List.prefix_append es _)), ?_⟩
    intro ending u ahead
    obtain ⟨more, broken⟩ := use_after_interruption ending ahead
    have used : 0 < endings (run contextStep (Rt64Context.start app calls) (es ++ [choice])).uses := by
      have uses : (contextStep (run contextStep (Rt64Context.start app calls) es) choice).uses =
          (run contextStep (Rt64Context.start app calls) es).uses ++ [(choice.thread, .finish)] := by
        simp [contextStep, ending, Rt64Context.goto, Rt64Context.use]
      rw [run_snoc, uses, endings_snoc]
      exact Nat.succ_pos _
    have after := safe (es ++ [choice]) List.prefix_rfl used more
    rw [run_append, run_snoc] at after
    exact broken after

/-- `app` is ended at most once, and nothing reaches it afterwards if and only if
no entry point stood between its test and its last call when it ended: then in
this run and every one that goes on from it, else not in all of those. -/
theorem shutdown_safety (app : Bool) (calls : ι → List (ContextCall ρ))
    (choices : List (ContextTurn ι)) :
    endings (run contextStep (Rt64Context.start app calls) choices).uses ≤ 1 ∧
    (EveryStep contextStep EndsAlone (Rt64Context.start app calls) choices →
      ∀ before, before <+: choices →
        NoUseAfterEnd (run contextStep (Rt64Context.start app calls) before).uses) ∧
    (EveryStep contextStep EndsAlone (Rt64Context.start app calls) choices ↔
      ∀ before, before <+: choices →
        0 < endings (run contextStep (Rt64Context.start app calls) before).uses →
        ∀ more, NoUseAfterEnd
          (run contextStep (Rt64Context.start app calls) (before ++ more)).uses) := by
  have reached {before : List (ContextTurn ι)} (h : before <+: choices)
      (alone : EveryStep contextStep EndsAlone (Rt64Context.start app calls) choices) :=
    quietEnd_run (everyStep_append.mp (h.choose_spec ▸ alone)).1
  refine ⟨(endHeld_run app calls choices).once, fun alone before h => (reached h alone).2.safe,
    fun alone before h used more => ?_, endsAlone_of_safe⟩
  obtain ⟨held, quiet⟩ := reached h alone
  rw [run_append]
  exact quiet_forever held quiet used more

/-- The flag is set behind the test of `update_screen` and before its call. -/
theorem update_screen_after_end :
    ¬ ∀ (calls : Fin 2 → List (ContextCall Unit)) (choices : List (ContextTurn (Fin 2))),
      NoUseAfterEnd (run contextStep (Rt64Context.start true calls) choices).uses := by
  intro safe
  have broken := safe (fun t => if t = 0 then [.entry (.updateScreen none)] else [.shutdown])
    ([0, 0, 0, 1, 1, 0].map fun t => ⟨t, AppCall.someReply⟩)
  have uses : (run contextStep (Rt64Context.start true fun t : Fin 2 =>
      if t = 0 then [.entry (.updateScreen none)] else [.shutdown])
      ([0, 0, 0, 1, 1, 0].map fun t => ⟨t, AppCall.someReply⟩) : Rt64Context (Fin 2) Unit).uses =
      [(1, .finish), (0, .call .updateScreen)] := by
    simp [run, contextStep, enterContext, Rt64Context.start, Rt64Context.usable, Rt64Context.goto,
      Rt64Context.use, Rt64Context.perform, EntryPoint.script, Rt64Context.updateScreen,
      Function.update]
  rw [uses] at broken
  simp [NoUseAfterEnd, AppUse.isFinish] at broken

end Rayman2Recomp
