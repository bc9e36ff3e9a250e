import Mathlib.Data.List.Sort
import Mathlib.Data.List.Nodup
import Mathlib.Order.Basic

namespace Retention

variable {α : Type*} [LinearOrder α] {names seen : List α} {x : α} {k : Nat}

/-- How many of the list come after. -/
def later (names : List α) (x : α) : Nat := names.countP (x < ·)

/-- The least of the list, all but the `k` greatest. -/
def excess (k : Nat) (names : List α) : List α :=
  (names.insertionSort (· ≤ ·)).take (names.length - k)

/-- What a cleaning leaves that looks at the names seen and removes what it can. -/
def cleaned (k : Nat) (names seen : List α) (removes : α → Bool) : List α :=
  names.filter fun x => ¬(x ∈ excess k seen ∧ removes x = true)

/-- The `k` greatest of the list remain, or all when there are no more. -/
structure KeepsGreatest (k : Nat) (names kept : List α) : Prop where
  count : kept.length = min names.length k
  known : kept ⊆ names
  greatest : ∀ x ∈ kept, ∀ y ∈ names, y ∉ kept → y < x

theorem later_perm {other : List α} (same : names.Perm other) : later names x = later other x :=
  same.countP_eq _

theorem later_lt_length (member : x ∈ names) : later names x < names.length := by
  apply Nat.lt_of_le_of_ne List.countP_le_length
  intro all
  have self := List.countP_eq_length.mp all x member
  simp at self

theorem later_split {before after : List α} (sorted : (before ++ x :: after).Pairwise (· < ·)) :
    later (before ++ x :: after) x = after.length := by
  obtain ⟨-, tail, across⟩ := List.pairwise_append.mp sorted
  have above := (List.pairwise_cons.mp tail).1
  have low : before.countP (x < ·) = 0 := by
    apply List.countP_eq_zero.mpr
    intro y member
    simpa using (across y member x List.mem_cons_self).le
  have high : after.countP (x < ·) = after.length := by
    apply List.countP_eq_length.mpr
    intro y member
    simpa using above y member
  unfold later
  rw [List.countP_append, List.countP_cons, low, high]
  simp

theorem sort_strict (once : names.Nodup) : (names.insertionSort (· ≤ ·)).Pairwise (· < ·) := by
  have sorted := List.pairwise_insertionSort (· ≤ ·) names
  have distinct := (List.perm_insertionSort (· ≤ ·) names).nodup_iff.mpr once
  exact (sorted.and distinct).imp fun both => lt_of_le_of_ne both.1 both.2

theorem mem_excess_iff (once : names.Nodup) :
    x ∈ excess k names ↔ x ∈ names ∧ k ≤ later names x := by
  have same := List.perm_insertionSort (· ≤ ·) names
  have length := same.length_eq
  constructor
  · intro member
    have inside := List.mem_of_mem_take member
    refine ⟨same.mem_iff.mp inside, ?_⟩
    obtain ⟨before, after, split⟩ := List.append_of_mem member
    have whole : names.insertionSort (· ≤ ·) =
        before ++ x :: (after ++ (names.insertionSort (· ≤ ·)).drop (names.length - k)) := by
      calc names.insertionSort (· ≤ ·) = excess k names ++
            (names.insertionSort (· ≤ ·)).drop (names.length - k) := (List.take_append_drop _ _).symm
        _ = _ := by rw [split, List.append_assoc, List.cons_append]
    have sorted := sort_strict once
    rw [whole] at sorted
    rw [← later_perm same, whole, later_split sorted, List.length_append, List.length_drop, length]
    have short : (excess k names).length ≤ names.length - k := List.length_take_le _ _
    rw [split, List.length_append, List.length_cons] at short
    omega
  · rintro ⟨member, many⟩
    obtain ⟨before, after, split⟩ := List.append_of_mem (same.mem_iff.mpr member)
    have sorted := sort_strict once
    rw [← later_perm same, split] at many
    rw [split] at sorted length
    rw [later_split sorted] at many
    rw [List.length_append, List.length_cons] at length
    unfold excess
    rw [split, List.take_append, List.mem_append]
    right
    obtain ⟨n, count⟩ : ∃ n, names.length - k - before.length = n + 1 :=
      ⟨names.length - k - before.length - 1, by omega⟩
    rw [count, List.take_succ_cons]
    exact List.mem_cons_self

theorem excess_nodup (once : names.Nodup) : (excess k names).Nodup :=
  ((List.perm_insertionSort (· ≤ ·) names).nodup_iff.mpr once).sublist (List.take_sublist _ _)

theorem excess_subset : excess k names ⊆ names := fun _ member =>
  (List.perm_insertionSort (· ≤ ·) names).mem_iff.mp (List.mem_of_mem_take member)

theorem length_excess : (excess k names).length = names.length - k := by
  unfold excess
  rw [List.length_take, List.length_insertionSort]
  omega

theorem later_le {y : α} (below : x ≤ y) : later names y ≤ later names x := by
  apply List.countP_mono_left
  intro z _ above
  simp only [decide_eq_true_eq] at above ⊢
  exact below.trans_lt above

theorem mem_cleaned {removes : α → Bool} :
    x ∈ cleaned k names seen removes ↔
      x ∈ names ∧ ¬(x ∈ excess k seen ∧ removes x = true) := by
  unfold cleaned
  rw [List.mem_filter, decide_eq_true_iff]

/-- What is gone is the part of the excess that could be removed. -/
theorem length_cleaned {removes : α → Bool} (once : names.Nodup) (seenOnce : seen.Nodup)
    (inside : seen ⊆ names) :
    (cleaned k names seen removes).length + ((excess k seen).filter removes).length =
      names.length := by
  rw [List.length_eq_length_filter_add (l := names)
    fun x => decide (¬(x ∈ excess k seen ∧ removes x = true))]
  congr 1
  apply List.Perm.length_eq
  apply (List.perm_ext_iff_of_nodup ((excess_nodup seenOnce).filter _) (once.filter _)).mpr
  intro x
  rw [List.mem_filter, List.mem_filter]
  simp only [decide_not, Bool.not_not, decide_eq_true_eq]
  constructor
  · rintro ⟨gone, removable⟩
    exact ⟨inside (excess_subset gone), gone, removable⟩
  · exact And.right

/-- Cleaning keeps the greatest exactly when it has seen all there is, as soon as there is too much,
and can remove all that is too much. -/
theorem keepsGreatest_cleaned_iff {removes : α → Bool} (once : names.Nodup) (seenOnce : seen.Nodup)
    (inside : seen ⊆ names) :
    KeepsGreatest k names (cleaned k names seen removes) ↔
      (k < names.length → names ⊆ seen) ∧ ∀ x ∈ names, k ≤ later names x → removes x = true := by
  have total : (cleaned k names seen removes).length + ((excess k seen).filter removes).length =
      names.length := length_cleaned once seenOnce inside
  have few : ((excess k seen).filter removes).length ≤ seen.length - k := by
    rw [← length_excess]
    exact List.length_filter_le _ _
  have fits := (List.subperm_of_subset seenOnce inside).length_le
  constructor
  · intro keeps
    have count := keeps.count
    have all : k < names.length → names ⊆ seen := by
      intro many
      have same := (List.subperm_of_subset seenOnce inside).perm_of_length_le (by omega)
      exact same.symm.subset
    refine ⟨all, fun x member old => ?_⟩
    have many := later_lt_length member
    have same : seen.Perm names :=
      (List.subperm_of_subset seenOnce inside).perm_of_length_le (by omega)
    have full : (excess k seen).filter removes = excess k seen := by
      apply List.filter_sublist.eq_of_length
      rw [length_excess]
      omega
    have gone : x ∈ excess k seen :=
      (mem_excess_iff seenOnce).mpr ⟨same.mem_iff.mpr member, by rwa [later_perm same]⟩
    rw [← full] at gone
    exact (List.mem_filter.mp gone).2
  · rintro ⟨all, removable⟩
    by_cases many : k < names.length
    · have same : seen.Perm names := (List.perm_ext_iff_of_nodup seenOnce once).mpr fun x =>
        ⟨fun member => inside member, fun member => all many member⟩
      have gone : ∀ x, x ∈ excess k seen ↔ x ∈ names ∧ k ≤ later names x := by
        intro x
        rw [mem_excess_iff seenOnce, same.mem_iff, later_perm same]
      have full : (excess k seen).filter removes = excess k seen := by
        apply List.filter_eq_self.mpr
        intro x member
        exact removable x ((gone x).mp member).1 ((gone x).mp member).2
      constructor
      · rw [full, length_excess, same.length_eq] at total
        omega
      · exact fun x member => (mem_cleaned.mp member).1
      · intro x kept y member missing
        have young : ¬k ≤ later names x := by
          intro old
          obtain ⟨known, stays⟩ := mem_cleaned.mp kept
          exact stays ⟨(gone x).mpr ⟨known, old⟩, removable x known old⟩
        have old : k ≤ later names y := by
          by_contra young'
          refine missing (mem_cleaned.mpr ⟨member, ?_⟩)
          rintro ⟨excessive, -⟩
          exact young' ((gone y).mp excessive).2
        by_contra above
        have more : later names y ≤ later names x := later_le (not_lt.mp above)
        omega
    · have none : excess k seen = [] := by
        apply List.eq_nil_of_length_eq_zero
        rw [length_excess]
        omega
      have whole : cleaned k names seen removes = names := by
        apply List.filter_eq_self.mpr
        simp [none]
      rw [whole]
      exact ⟨by omega, fun _ member => member, fun _ _ _ member missing => absurd member missing⟩

end Retention
