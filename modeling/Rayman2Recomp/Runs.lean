import Mathlib.Data.List.Induction

namespace Runs

variable {σ ε : Type}

/-- The state a deterministic step function reaches on a list of events. -/
def run (step : σ → ε → σ) (s : σ) (es : List ε) : σ := es.foldl step s

@[simp] theorem run_nil (step : σ → ε → σ) (s : σ) : run step s [] = s := rfl

@[simp] theorem run_cons (step : σ → ε → σ) (s : σ) (e : ε) (es : List ε) :
    run step s (e :: es) = run step (step s e) es := rfl

theorem run_append (step : σ → ε → σ) (s : σ) (es fs : List ε) :
    run step s (es ++ fs) = run step (run step s es) fs := List.foldl_append

@[simp] theorem run_snoc (step : σ → ε → σ) (s : σ) (es : List ε) (e : ε) :
    run step s (es ++ [e]) = step (run step s es) e := by
  rw [run_append]
  rfl

/-- `ok` holds at every step of the run, of the state the step starts from. -/
def EveryStep (step : σ → ε → σ) (ok : σ → ε → Prop) : σ → List ε → Prop
  | _, [] => True
  | s, e :: es => ok s e ∧ EveryStep step ok (step s e) es

@[simp] theorem everyStep_nil {step : σ → ε → σ} {ok : σ → ε → Prop} {s : σ} :
    EveryStep step ok s [] := trivial

theorem everyStep_cons {step : σ → ε → σ} {ok : σ → ε → Prop} {s : σ} {e : ε} {es : List ε} :
    EveryStep step ok s (e :: es) ↔ ok s e ∧ EveryStep step ok (step s e) es := Iff.rfl

theorem everyStep_append {step : σ → ε → σ} {ok : σ → ε → Prop} {s : σ} {es fs : List ε} :
    EveryStep step ok s (es ++ fs) ↔
      EveryStep step ok s es ∧ EveryStep step ok (run step s es) fs := by
  induction es generalizing s with
  | nil => simp
  | cons e es ih => simp only [List.cons_append, everyStep_cons, ih, run_cons, and_assoc]

theorem everyStep_snoc {step : σ → ε → σ} {ok : σ → ε → Prop} {s : σ} {es : List ε} {e : ε} :
    EveryStep step ok s (es ++ [e]) ↔ EveryStep step ok s es ∧ ok (run step s es) e := by
  rw [everyStep_append, everyStep_cons]
  simp

/-- Induction along a run whose steps are all `ok`; the motive may speak of the
events so far. -/
theorem run_history_induction {step : σ → ε → σ} {ok : σ → ε → Prop}
    {motive : List ε → σ → Prop} {s : σ} (start : motive [] s)
    (next : ∀ es e, motive es (run step s es) → ok (run step s es) e →
      motive (es ++ [e]) (step (run step s es) e))
    {es : List ε} (h : EveryStep step ok s es) : motive es (run step s es) := by
  induction es using List.reverseRecOn with
  | nil => exact start
  | append_singleton es e ih =>
    obtain ⟨before, here⟩ := everyStep_snoc.mp h
    rw [run_snoc]
    exact next es e (ih before) here

theorem run_induction {step : σ → ε → σ} {ok : σ → ε → Prop} {motive : σ → Prop} {s : σ}
    (start : motive s) (next : ∀ s e, motive s → ok s e → motive (step s e))
    {es : List ε} (h : EveryStep step ok s es) : motive (run step s es) :=
  run_history_induction (motive := fun _ => motive) start
    (fun es e holds here => next (run step s es) e holds here) h

theorem everyStep_of_forall {step : σ → ε → σ} {ok : σ → ε → Prop} (always : ∀ s e, ok s e)
    (s : σ) (es : List ε) : EveryStep step ok s es := by
  induction es generalizing s with
  | nil => trivial
  | cons e es ih => exact ⟨always s e, ih (step s e)⟩

theorem everyStep_iff_forall_mem {step : σ → ε → σ} {ok : ε → Prop} {s : σ} {es : List ε} :
    EveryStep step (fun _ e => ok e) s es ↔ ∀ e ∈ es, ok e := by
  induction es generalizing s with
  | nil => simp
  | cons e es ih => rw [everyStep_cons, ih, List.forall_mem_cons]

theorem run_invariant {step : σ → ε → σ} {motive : σ → Prop} {s : σ} (start : motive s)
    (next : ∀ s e, motive s → motive (step s e)) (es : List ε) : motive (run step s es) :=
  have always : EveryStep step (fun _ _ => True) s es := everyStep_of_forall (fun _ _ => trivial) s es
  run_induction start (fun s e holds _ => next s e holds) always

/-- Where one step keeps `P` exactly when it is `ok`, a run stays within `P`
exactly when all of its steps are. -/
theorem everyPrefix_iff_everyStep {step : σ → ε → σ} {ok : σ → ε → Prop} {P : σ → Prop}
    (exact_step : ∀ s e, P s → (P (step s e) ↔ ok s e)) {s : σ} (start : P s) (es : List ε) :
    (∀ before, before <+: es → P (run step s before)) ↔ EveryStep step ok s es := by
  induction es using List.reverseRecOn with
  | nil => simpa using start
  | append_singleton es e ih =>
    simp only [everyStep_snoc, ← ih, List.prefix_concat_iff]
    constructor
    · intro h
      have now := h es (Or.inr List.prefix_rfl)
      refine ⟨fun before hb => h before (Or.inr hb), (exact_step _ e now).mp ?_⟩
      simpa using h (es ++ [e]) (Or.inl rfl)
    · rintro ⟨h, here⟩ before (rfl | hb)
      · rw [run_snoc]
        exact (exact_step _ e (h es List.prefix_rfl)).mpr here
      · exact h before hb

/-- What holds of a thread where one of them has moved. -/
theorem update_cases {ι τ : Type} [DecidableEq ι] {threads : ι → τ} {t u : ι} {now : τ}
    {P : τ → Prop} (h : P (Function.update threads t now u)) :
    u = t ∧ P now ∨ u ≠ t ∧ P (threads u) := by
  by_cases same : u = t
  · subst u
    rw [Function.update_self] at h
    exact Or.inl ⟨rfl, h⟩
  · rw [Function.update_of_ne same] at h
    exact Or.inr ⟨same, h⟩

end Runs
