import Mathlib.Data.Finset.Card
import Mathlib.Data.List.Induction
import Mathlib.Logic.Relation

namespace Saturation

variable {σ τ ε φ : Type*} {Inv : σ → Prop} {left : σ → Nat} {s : σ}

/-- One pass over the entries, each of which may change the state and says whether it did. -/
def sweep (step : σ → ε → σ × Bool) (s : σ) (es : List ε) : σ × Bool :=
  es.foldl (fun r e => ((step r.1 e).1, r.2 || (step r.1 e).2)) (s, false)

/-- Passes until one changes nothing. -/
def whileChanged (pass : σ → σ × Bool) : Nat → σ → Option σ
  | 0, _ => none
  | fuel + 1, s => if (pass s).2 then whileChanged pass fuel (pass s).1 else some (pass s).1

/-- The same with a number of passes after which the state is taken as it is. -/
def forPasses (pass : σ → σ × Bool) : Nat → σ → σ
  | 0, s => s
  | n + 1, s => if (pass s).2 then forPasses pass n (pass s).1 else (pass s).1

/-- A step that changes nothing or leaves less to do, as it says. -/
structure Saturates (Inv : σ → Prop) (left : σ → Nat) (step : σ → σ × Bool) : Prop where
  keeps : ∀ s, Inv s → Inv (step s).1
  still : ∀ s, Inv s → (step s).2 = false → (step s).1 = s
  grows : ∀ s, Inv s → (step s).2 = true → left (step s).1 < left s

theorem sweep_snoc (step : σ → ε → σ × Bool) (s : σ) (es : List ε) (e : ε) :
    sweep step s (es ++ [e]) = ((step (sweep step s es).1 e).1,
      (sweep step s es).2 || (step (sweep step s es).1 e).2) := by
  unfold sweep
  rw [List.foldl_append]
  rfl

theorem Saturates.le {step : σ → σ × Bool} (h : Saturates Inv left step) (inv : Inv s) :
    left (step s).1 ≤ left s := by
  cases changed : (step s).2 with
  | false => rw [h.still s inv changed]
  | true => exact (h.grows s inv changed).le

theorem Saturates.idle : Saturates Inv left fun s => (s, false) :=
  ⟨fun _ inv => inv, fun _ _ _ => rfl, fun _ _ changed => absurd changed Bool.false_ne_true⟩

theorem Saturates.sweep {step : σ → ε → σ × Bool} {es : List ε}
    (each : ∀ e ∈ es, Saturates Inv left fun s => step s e) :
    Saturates Inv left fun s => sweep step s es := by
  induction es using List.reverseRecOn with
  | nil => exact Saturates.idle
  | append_singleton es e ih =>
    have before := ih fun e' member => each e' (List.mem_append_left _ member)
    have last := each e (List.mem_append_right _ List.mem_cons_self)
    constructor
    · intro s inv
      rw [sweep_snoc]
      exact last.keeps _ (before.keeps s inv)
    · intro s inv quiet
      rw [sweep_snoc] at quiet ⊢
      obtain ⟨first, second⟩ := Bool.or_eq_false_iff.mp quiet
      have same := before.still s inv first
      simp only [same] at second ⊢
      exact last.still s inv second
    · intro s inv changed
      rw [sweep_snoc] at changed ⊢
      have held := before.keeps s inv
      rcases Bool.or_eq_true_iff.mp changed with first | second
      · exact (last.le held).trans_lt (before.grows s inv first)
      · exact (last.grows _ held second).trans_le (before.le inv)

theorem sweep_keeps {step : σ → ε → σ × Bool} {es : List ε}
    (each : ∀ e ∈ es, ∀ s, Inv s → Inv (step s e).1) (inv : Inv s) : Inv (sweep step s es).1 := by
  induction es using List.reverseRecOn with
  | nil => exact inv
  | append_singleton es e ih =>
    have before := ih fun e' member => each e' (List.mem_append_left _ member)
    rw [sweep_snoc]
    exact each e (List.mem_append_right _ List.mem_cons_self) _ before

theorem whileChanged_keeps {pass : σ → σ × Bool} (keeps : ∀ s, Inv s → Inv (pass s).1) {fuel : Nat}
    {result : σ} (inv : Inv s) (ends : whileChanged pass fuel s = some result) : Inv result := by
  induction fuel generalizing s with
  | zero => cases ends
  | succ fuel ih =>
    unfold whileChanged at ends
    split at ends
    next => exact ih (keeps s inv) ends
    next =>
      cases Option.some.inj ends
      exact keeps s inv

/-- After a pass that changed nothing no entry changes anything. -/
theorem sweep_fixed {step : σ → ε → σ × Bool} {es : List ε}
    (each : ∀ e ∈ es, Saturates Inv left fun s => step s e) (inv : Inv s)
    (quiet : (sweep step s es).2 = false) : ∀ e ∈ es, step s e = (s, false) := by
  induction es using List.reverseRecOn with
  | nil => exact fun _ member => absurd member List.not_mem_nil
  | append_singleton es e ih =>
    have each' : ∀ e ∈ es, Saturates Inv left fun s => step s e := fun e' member =>
      each e' (List.mem_append_left _ member)
    have last := each e (List.mem_append_right _ List.mem_cons_self)
    rw [sweep_snoc] at quiet
    obtain ⟨first, second⟩ := Bool.or_eq_false_iff.mp quiet
    rw [(Saturates.sweep each').still s inv first] at second
    intro e' member
    rcases List.mem_append.mp member with old | new
    · exact ih each' first e' old
    · rw [List.mem_singleton.mp new]
      exact Prod.ext (last.still s inv second) second

theorem Saturates.guarded {step : σ → σ × Bool} (h : Saturates Inv left step) (skips : σ → Prop)
    [DecidablePred skips] : Saturates Inv left fun s => if skips s then (s, false) else step s := by
  constructor
  · intro s inv
    split
    next => exact inv
    next => exact h.keeps s inv
  · intro s inv quiet
    split at quiet
    next skip => rw [if_pos skip]
    next go =>
      rw [if_neg go]
      exact h.still s inv quiet
  · intro s inv changed
    split at changed
    next => exact absurd changed Bool.false_ne_true
    next go =>
      rw [if_neg go]
      exact h.grows s inv changed

/-- Two steps side by side. -/
theorem Saturates.pair {Inv' : τ → Prop} {left' : τ → Nat} {step : σ → σ × Bool}
    {step' : τ → τ × Bool} (h : Saturates Inv left step) (h' : Saturates Inv' left' step') :
    Saturates (fun s : σ × τ => Inv s.1 ∧ Inv' s.2) (fun s => left s.1 + left' s.2)
      fun s => (((step s.1).1, (step' s.2).1), (step s.1).2 || (step' s.2).2) := by
  constructor
  · intro s both
    obtain ⟨inv, inv'⟩ := both
    exact ⟨h.keeps _ inv, h'.keeps _ inv'⟩
  · rintro s ⟨inv, inv'⟩ quiet
    obtain ⟨first, second⟩ := Bool.or_eq_false_iff.mp quiet
    exact Prod.ext (h.still _ inv first) (h'.still _ inv' second)
  · rintro s ⟨inv, inv'⟩ changed
    have low := h.le inv
    have low' := h'.le inv'
    rcases Bool.or_eq_true_iff.mp changed with first | second
    · have := h.grows _ inv first
      simp only
      omega
    · have := h'.grows _ inv' second
      simp only
      omega

/-- The loop ends, whatever is left at first, in a state that another pass leaves as it is. -/
theorem Saturates.terminates {pass : σ → σ × Bool} (h : Saturates Inv left pass) (inv : Inv s) :
    ∃ s', Inv s' ∧ pass s' = (s', false) ∧
      ∀ fuel, left s < fuel → whileChanged pass fuel s = some s' := by
  induction bound : left s using Nat.strong_induction_on generalizing s with
  | _ n ih =>
    cases changed : (pass s).2 with
    | false =>
      have same := h.still s inv changed
      refine ⟨s, inv, Prod.ext same changed, fun fuel enough => ?_⟩
      obtain ⟨fuel, rfl⟩ : ∃ k, fuel = k + 1 := ⟨fuel - 1, by omega⟩
      simp [whileChanged, changed, same]
    | true =>
      have less := h.grows s inv changed
      obtain ⟨s', inv', fixed, reaches⟩ := ih _ (bound ▸ less) (h.keeps s inv) rfl
      refine ⟨s', inv', fixed, fun fuel enough => ?_⟩
      obtain ⟨fuel, rfl⟩ : ∃ k, fuel = k + 1 := ⟨fuel - 1, by omega⟩
      rw [whileChanged, changed, if_pos rfl]
      exact reaches fuel (by omega)

/-- As many passes as there is left to do are enough. -/
theorem Saturates.forPasses {pass : σ → σ × Bool} (h : Saturates Inv left pass) (inv : Inv s)
    {n : Nat} (enough : left s ≤ n) :
    Inv (forPasses pass n s) ∧ pass (forPasses pass n s) = (forPasses pass n s, false) := by
  induction n generalizing s with
  | zero =>
    have quiet : (pass s).2 = false := by
      by_contra changed
      have := h.grows s inv (by simpa using changed)
      omega
    exact ⟨inv, Prod.ext (h.still s inv quiet) quiet⟩
  | succ n ih =>
    unfold Saturation.forPasses
    cases changed : (pass s).2 with
    | false =>
      have same := h.still s inv changed
      rw [if_neg Bool.false_ne_true, same]
      exact ⟨inv, Prod.ext same changed⟩
    | true =>
      have less := h.grows s inv changed
      rw [if_pos rfl]
      exact ih (h.keeps s inv) (by omega)

/-- How many of the facts do not hold yet. -/
def pending (facts : Finset φ) (holds : φ → Prop) [DecidablePred holds] : Nat :=
  (facts.filter fun x => ¬holds x).card

theorem pending_lt {facts : Finset φ} {holds holds' : φ → Prop} [DecidablePred holds]
    [DecidablePred holds'] {x : φ} (more : ∀ x, holds x → holds' x) (member : x ∈ facts)
    (fresh : ¬holds x) (now : holds' x) : pending facts holds' < pending facts holds := by
  apply Finset.card_lt_card
  rw [Finset.ssubset_iff_of_subset]
  · refine ⟨x, Finset.mem_filter.mpr ⟨member, fresh⟩, ?_⟩
    intro still
    exact (Finset.mem_filter.mp still).2 now
  · intro y left
    obtain ⟨known, absent⟩ := Finset.mem_filter.mp left
    exact Finset.mem_filter.mpr ⟨known, fun here => absent (more y here)⟩

theorem pending_le (facts : Finset φ) (holds : φ → Prop) [DecidablePred holds] :
    pending facts holds ≤ facts.card := Finset.card_filter_le _ _

section

variable {α : Type*} [DecidableEq α] {facts : Finset α} {a x : α} {p q : Prop} [Decidable p]

theorem changed_ite {more same : σ} : (if p then (more, true) else (same, false)).2 = true ↔ p := by
  split
  next here => exact iff_of_true rfl here
  next absent => exact iff_of_false Bool.false_ne_true absent

/-- A step that adds one element where it is new. -/
theorem mem_insert_ite (guard : p ↔ a ∉ facts ∧ q) :
    x ∈ (if p then (insert a facts, true) else (facts, false)).1 ↔ x ∈ facts ∨ (x = a ∧ q) := by
  split
  next added =>
    rw [Finset.mem_insert, or_comm, and_iff_left (guard.mp added).2]
  next skipped =>
    refine ⟨Or.inl, ?_⟩
    intro here
    rcases here with old | ⟨rfl, wanted⟩
    · exact old
    · exact not_not.mp fun fresh => skipped (guard.mpr ⟨fresh, wanted⟩)

end

section

variable {α β : Type*} {r : α → α → Prop} {goal : Set α} {own : α → Set β} {a b : α}

/-- The places from which a path leads to a goal. -/
def leadsInto (r : α → α → Prop) (goal : Set α) : Set α :=
  {a | ∃ b ∈ goal, Relation.ReflTransGen r a b}

/-- What the places own that a path leads to. -/
def gathered (r : α → α → Prop) (own : α → Set β) (a : α) : Set β :=
  {x | ∃ b, Relation.ReflTransGen r a b ∧ x ∈ own b}

theorem subset_leadsInto : goal ⊆ leadsInto r goal := fun a member => ⟨a, member, .refl⟩

theorem leadsInto_step (edge : r a b) (inside : b ∈ leadsInto r goal) : a ∈ leadsInto r goal := by
  obtain ⟨c, member, path⟩ := inside
  exact ⟨c, member, path.head edge⟩

theorem leadsInto_subset {found : Set α} (base : goal ⊆ found)
    (closed : ∀ a b, r a b → b ∈ found → a ∈ found) : leadsInto r goal ⊆ found := by
  intro a reached
  obtain ⟨b, member, path⟩ := reached
  induction path using Relation.ReflTransGen.head_induction_on with
  | refl => exact base member
  | head edge _ ih => exact closed _ _ edge ih

theorem own_subset_gathered : own a ⊆ gathered r own a := fun _ member => ⟨a, .refl, member⟩

theorem gathered_step (edge : r a b) : gathered r own b ⊆ gathered r own a := by
  intro x reached
  obtain ⟨c, path, member⟩ := reached
  exact ⟨c, path.head edge, member⟩

theorem gathered_subset {found : α → Set β} (base : ∀ a, own a ⊆ found a)
    (closed : ∀ a b, r a b → found b ⊆ found a) : gathered r own a ⊆ found a := by
  intro x reached
  obtain ⟨b, path, member⟩ := reached
  induction path using Relation.ReflTransGen.head_induction_on with
  | refl => exact base b member
  | head edge _ ih => exact closed _ _ edge ih

end

end Saturation
