import Mathlib.Data.List.Count
import Mathlib.Tactic.Linarith
import Mathlib.Tactic.Ring

namespace Spacing

/-- Any two entries lie `gap` apart for each step between them, up to `slack`. -/
def Spaced (gap slack : Int) (times : List Int) : Prop :=
  ∀ (n m : Nat) (x y : Int), n ≤ m → times[n]? = some x → times[m]? = some y →
    ((m : Int) - n) * gap ≤ y - x + slack

variable {gap slack : Int} {times : List Int}

theorem spaced_nil (gap slack : Int) : Spaced gap slack [] := by
  intro n m x y _ hx
  simp at hx

theorem spaced_snoc {next : Int} (spaced : Spaced gap 0 times)
    (apart : ∀ last, times.getLast? = some last → last + gap ≤ next) :
    Spaced gap 0 (times ++ [next]) := by
  intro n m x y le hx hy
  have bound : m < (times ++ [next]).length := (List.getElem?_eq_some_iff.mp hy).1
  rw [List.length_append, List.length_singleton] at bound
  by_cases inner : m < times.length
  · have outer : n < times.length := by omega
    rw [List.getElem?_append_left inner] at hy
    rw [List.getElem?_append_left outer] at hx
    exact spaced n m x y le hx hy
  · have at_end : m = times.length := by omega
    subst m
    rw [List.getElem?_concat_length] at hy
    cases hy
    by_cases same : n = times.length
    · subst n
      rw [List.getElem?_concat_length] at hx
      cases hx
      simp
    · have outer : n < times.length := by omega
      rw [List.getElem?_append_left outer] at hx
      have last_mem : times.length - 1 < times.length := by omega
      have last : times[times.length - 1]? = some times[times.length - 1] :=
        List.getElem?_eq_getElem last_mem
      have before := spaced n (times.length - 1) x _ (by omega) hx last
      have after := apart times[times.length - 1] (List.getLast?_eq_getElem?.trans last)
      have steps : ((times.length - 1 : Nat) : Int) = times.length - 1 := by omega
      rw [steps] at before
      have split : ((times.length : Int) - n) * gap =
          ((times.length : Int) - 1 - n) * gap + gap := by ring
      rw [split]
      linarith

theorem extent_of_countP {α : Type} {p : α → Bool} {l : List α} (some_found : 0 < l.countP p) :
    ∃ n m x y, n ≤ m ∧ l[n]? = some x ∧ l[m]? = some y ∧ p x ∧ p y ∧
      l.countP p + n ≤ m + 1 := by
  induction l with
  | nil => simp at some_found
  | cons head tail ih =>
    rw [List.countP_cons] at some_found ⊢
    by_cases rest : 0 < tail.countP p
    · obtain ⟨n, m, x, y, le, hx, hy, px, py, count⟩ := ih rest
      cases here : p head with
      | true =>
        rw [if_pos rfl]
        exact ⟨0, m + 1, head, y, by omega, rfl, hy, here, py, by omega⟩
      | false =>
        rw [if_neg Bool.false_ne_true]
        exact ⟨n + 1, m + 1, x, y, by omega, hx, hy, px, py, by omega⟩
    · cases here : p head with
      | true =>
        rw [if_pos rfl]
        exact ⟨0, 0, head, head, le_rfl, rfl, rfl, here, here, by omega⟩
      | false =>
        rw [here, if_neg Bool.false_ne_true] at some_found
        exact absurd some_found rest

/-- No window of a spaced list holds more entries than its length has gaps. -/
theorem countP_window_le (spaced : Spaced gap slack times) (gap_pos : 0 < gap)
    (slack_nonneg : 0 ≤ slack) (start : Int) {extent : Int} (extent_nonneg : 0 ≤ extent) :
    ((times.countP fun c => decide (start ≤ c ∧ c ≤ start + extent) : Nat) : Int) ≤
      1 + (extent + slack) / gap := by
  by_cases found : 0 < times.countP fun c => decide (start ≤ c ∧ c ≤ start + extent)
  · obtain ⟨n, m, x, y, le, hx, hy, px, py, count⟩ := extent_of_countP found
    have inside_x := of_decide_eq_true px
    have inside_y := of_decide_eq_true py
    have apart := spaced n m x y le hx hy
    have steps : ((m : Int) - n) * gap ≤ extent + slack := by linarith
    have gaps := Int.le_ediv_of_mul_le gap_pos steps
    omega
  · have nonneg : 0 ≤ (extent + slack) / gap := Int.ediv_nonneg (by omega) (by omega)
    omega

end Spacing
