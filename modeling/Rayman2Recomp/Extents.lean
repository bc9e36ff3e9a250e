import Mathlib.Data.List.Basic
import Mathlib.Data.List.Range

namespace Extents

variable {α β : Type} {good : Nat → Bool} {n t i j : Nat} {r : Nat × Nat}

/-- One place of a scan that closes an extent at the first bad place after it: the extents closed so
far, and where the open one begins. -/
def advance (good : Bool) (s : List (α × α) × Option α) (a : α) : List (α × α) × Option α :=
  match good, s.2 with
  | true, none => (s.1, some a)
  | false, some first => (s.1 ++ [(first, a)], none)
  | _, _ => s

def scan (good : α → Bool) (places : List α) : List (α × α) × Option α :=
  places.foldl (fun s a => advance (good a) s a) ([], none)

theorem scan_snoc (good : α → Bool) (places : List α) (a : α) :
    scan good (places ++ [a]) = advance (good a) (scan good places) a := by
  unfold scan
  rw [List.foldl_append]
  rfl

/-- An extent still open is closed at the end. -/
def finish (s : List (α × α) × Option α) (last : α) : List (α × α) :=
  s.1 ++ (s.2.map fun first => (first, last)).toList

theorem mem_finish {s : List (α × α) × Option α} {last : α} {r : α × α} :
    r ∈ finish s last ↔ r ∈ s.1 ∨ ∃ first, s.2 = some first ∧ r = (first, last) := by
  obtain ⟨closed, first⟩ := s
  cases first <;> simp [finish]

/-- The places from the first number up to the second are good and no more beside them are. -/
structure IsExtent (good : Nat → Bool) (n : Nat) (r : Nat × Nat) : Prop where
  nonempty : r.1 < r.2
  inside : r.2 ≤ n
  all : ∀ k, r.1 ≤ k → k < r.2 → good k = true
  left : r.1 = 0 ∨ good (r.1 - 1) = false
  right : r.2 = n ∨ good r.2 = false

/-- The last of `n` places is good. -/
def endsGood (good : Nat → Bool) (n : Nat) : Bool := n != 0 && good (n - 1)

@[simp] theorem endsGood_zero : endsGood good 0 = false := rfl

@[simp] theorem endsGood_succ : endsGood good (n + 1) = good n := by simp [endsGood]

theorem advance_map (f : α → β) (bit : Bool) (s : List (α × α) × Option α) (a : α) :
    advance bit (s.1.map (Prod.map f f), s.2.map f) (f a) =
      ((advance bit s a).1.map (Prod.map f f), (advance bit s a).2.map f) := by
  obtain ⟨closed, first⟩ := s
  cases bit with
  | true => cases first <;> rfl
  | false =>
    cases first with
    | none => rfl
    | some first => simp [advance]

theorem isExtent_lt_succ_iff :
    IsExtent good (t + 1) r ∧ r.2 < t + 1 ↔
      (IsExtent good t r ∧ r.2 < t) ∨ (IsExtent good t r ∧ r.2 = t ∧ good t = false) := by
  constructor
  · rintro ⟨extent, low⟩
    have bad : good r.2 = false := extent.right.resolve_left (by omega)
    have narrow : IsExtent good t r :=
      ⟨extent.nonempty, by omega, extent.all, extent.left, Or.inr bad⟩
    rcases Nat.lt_or_ge r.2 t with before | last
    · exact Or.inl ⟨narrow, before⟩
    · have same : r.2 = t := by omega
      exact Or.inr ⟨narrow, same, same ▸ bad⟩
  · rintro (⟨extent, low⟩ | ⟨extent, same, bad⟩)
    · have stop := extent.right.resolve_left (by omega)
      exact ⟨⟨extent.nonempty, by omega, extent.all, extent.left, Or.inr stop⟩, by omega⟩
    · exact ⟨⟨extent.nonempty, by omega, extent.all, extent.left, Or.inr (same ▸ bad)⟩, by omega⟩

theorem isExtent_last_succ_iff :
    IsExtent good (t + 1) (i, t + 1) ↔
      good t = true ∧ (IsExtent good t (i, t) ∨ (i = t ∧ endsGood good t = false)) := by
  constructor
  · intro extent
    have low : i < t + 1 := extent.nonempty
    refine ⟨extent.all t (by omega) (Nat.lt_succ_self t), ?_⟩
    rcases Nat.lt_or_ge i t with before | last
    · refine Or.inl ⟨before, Nat.le_refl t, fun k above below => ?_, extent.left, Or.inl rfl⟩
      exact extent.all k above (Nat.lt_succ_of_lt below)
    · have same : i = t := by omega
      refine Or.inr ⟨same, ?_⟩
      rcases extent.left with zero | bad
      · have first : i = 0 := zero
        rw [← same, first]
        rfl
      · have before : good (t - 1) = false := same ▸ bad
        simp [endsGood, before]
  · rintro ⟨here, extent | ⟨rfl, fresh⟩⟩
    · have low : i < t := extent.nonempty
      refine ⟨Nat.lt_succ_of_lt low, Nat.le_refl _, fun k above below => ?_, extent.left, Or.inl rfl⟩
      rcases Nat.lt_or_ge k t with before | last
      · exact extent.all k above before
      · have same : k = t := by
          have : k < t + 1 := below
          omega
        rw [same]
        exact here
    · refine ⟨Nat.lt_succ_self i, Nat.le_refl _, fun k above below => ?_, ?_, Or.inl rfl⟩
      · have same : k = i := by
          have low : i ≤ k := above
          have high : k < i + 1 := below
          omega
        rw [same]
        exact here
      · unfold endsGood at fresh
        cases i with
        | zero => exact Or.inl rfl
        | succ i => exact Or.inr (by simpa using fresh)

theorem IsExtent.after_bad (extent : IsExtent good t (i, t)) (low : j < t) (bad : good j = false) :
    j < i := by
  by_contra inside
  have here := extent.all j (Nat.not_lt.mp inside) low
  rw [bad] at here
  exact absurd here (by decide)

/-- What a scan has found at the place it has come to. -/
structure Held (good : Nat → Bool) (t : Nat) (s : List (Nat × Nat) × Option Nat) : Prop where
  ascending : s.1.Pairwise fun r r' => r.2 < r'.1
  closed : ∀ r, r ∈ s.1 ↔ IsExtent good t r ∧ r.2 < t
  opened : ∀ i, s.2 = some i ↔ IsExtent good t (i, t)
  unopened : s.2.isSome = endsGood good t

theorem held_start : Held good 0 ([], none) := by
  constructor
  · exact List.Pairwise.nil
  · intro r
    simp
  · intro i
    constructor
    · intro absent
      exact absurd absent (by simp)
    · intro extent
      exact absurd extent.nonempty (Nat.not_lt_zero i)
  · rfl

theorem Held.closed_next {s : List (Nat × Nat) × Option Nat} (held : Held good t s) :
    IsExtent good (t + 1) r ∧ r.2 < t + 1 ↔
      r ∈ s.1 ∨ (r.2 = t ∧ s.2 = some r.1 ∧ good t = false) := by
  rw [isExtent_lt_succ_iff, held.closed]
  refine or_congr_right ?_
  constructor
  · rintro ⟨extent, last, bad⟩
    refine ⟨last, (held.opened r.1).mpr ?_, bad⟩
    rw [← last]
    rwa [← last] at extent
  · rintro ⟨last, begun, bad⟩
    have extent := (held.opened r.1).mp begun
    rw [← last] at extent
    exact ⟨last ▸ extent, last, bad⟩

theorem held_advance_good {s : List (Nat × Nat) × Option Nat} (held : Held good t s)
    (here : good t = true) : Held good (t + 1) (advance true s t) := by
  have known : ∀ r, r ∈ s.1 ↔ IsExtent good (t + 1) r ∧ r.2 < t + 1 := by
    intro r
    rw [held.closed_next, here]
    simp
  obtain ⟨ascending, -, opened, unopened⟩ := held
  obtain ⟨closed, first⟩ := s
  cases first with
  | none =>
    have fresh : endsGood good t = false := unopened.symm
    refine ⟨ascending, known, fun i => ?_, by simp [advance, here]⟩
    rw [isExtent_last_succ_iff, ← opened i]
    simp [advance, here, fresh, eq_comm]
  | some first =>
    have going : endsGood good t = true := unopened.symm
    refine ⟨ascending, known, fun i => ?_, by simp [advance, here]⟩
    rw [isExtent_last_succ_iff, ← opened i]
    simp [advance, here, going]

theorem held_advance_bad {s : List (Nat × Nat) × Option Nat} (held : Held good t s)
    (here : good t = false) : Held good (t + 1) (advance false s t) := by
  have known := fun r => held.closed_next (r := r)
  have stop : ∀ i, ¬IsExtent good (t + 1) (i, t + 1) := by
    intro i extent
    have bit := (isExtent_last_succ_iff.mp extent).1
    rw [here] at bit
    exact absurd bit (by decide)
  obtain ⟨ascending, inside, opened, -⟩ := held
  obtain ⟨closed, first⟩ := s
  cases first with
  | none =>
    refine ⟨ascending, fun r => ?_, fun i => ?_, by simp [advance, here]⟩
    · rw [known r]
      simp [advance]
    · simp [advance, stop i]
  | some first =>
    refine ⟨?_, fun r => ?_, fun i => ?_, by simp [advance, here]⟩
    · refine List.pairwise_append.mpr ⟨ascending, List.pairwise_singleton _ _, ?_⟩
      intro r member r' last
      rw [List.mem_singleton.mp last]
      obtain ⟨before, low⟩ := (inside r).mp member
      exact ((opened first).mp rfl).after_bad low (before.right.resolve_left (by omega))
    · rw [known r, here]
      simp [advance, Prod.ext_iff, eq_comm, and_comm]
    · simp [advance, stop i]

theorem held_advance {s : List (Nat × Nat) × Option Nat} (held : Held good t s) :
    Held good (t + 1) (advance (good t) s t) := by
  cases here : good t with
  | true => exact held_advance_good held here
  | false => exact held_advance_bad held here

theorem held_scan (good : Nat → Bool) (n : Nat) : Held good n (scan good (List.range n)) := by
  induction n with
  | zero => exact held_start
  | succ n ih =>
    rw [List.range_succ, scan_snoc]
    exact held_advance ih

/-- The extents of `n` places. -/
def extents (good : Nat → Bool) (n : Nat) : List (Nat × Nat) :=
  finish (scan good (List.range n)) n

theorem mem_extents_iff : r ∈ extents good n ↔ IsExtent good n r := by
  have held := held_scan good n
  unfold extents
  rw [mem_finish, held.closed]
  constructor
  · rintro (⟨extent, -⟩ | ⟨first, begun, rfl⟩)
    · exact extent
    · exact (held.opened first).mp begun
  · intro extent
    rcases Nat.lt_or_ge r.2 n with low | high
    · exact Or.inl ⟨extent, low⟩
    · have last : r.2 = n := Nat.le_antisymm extent.inside high
      refine Or.inr ⟨r.1, (held.opened r.1).mpr ?_, Prod.ext rfl last⟩
      rw [← last]
      rwa [← last] at extent

/-- The places may be numbered by any increasing measure and the last extent may end anywhere. -/
theorem finish_ascending {s : List (Nat × Nat) × Option Nat} (held : Held good t s) {f : Nat → Nat}
    (increasing : ∀ i j, i < j → f i < f j) (last : Nat) :
    (finish (s.1.map (Prod.map f f), s.2.map f) last).Pairwise fun r r' => r.2 < r'.1 := by
  unfold finish
  refine List.pairwise_append.mpr ⟨?_, ?_, ?_⟩
  · exact List.pairwise_map.mpr (held.ascending.imp fun {r r'} apart => increasing r.2 r'.1 apart)
  · cases s.2 with
    | none => exact List.Pairwise.nil
    | some first => exact List.pairwise_singleton _ _
  · intro r member r' final
    obtain ⟨e, closed, rfl⟩ := List.mem_map.mp member
    obtain ⟨start, moved, rfl⟩ := Option.map_eq_some_iff.mp (Option.mem_toList.mp final)
    obtain ⟨first, begun, rfl⟩ := Option.map_eq_some_iff.mp moved
    obtain ⟨before, low⟩ := (held.closed e).mp closed
    have bad := before.right.resolve_left (by omega)
    exact increasing _ _ (((held.opened first).mp begun).after_bad low bad)

theorem finish_map (f : α → β) (s : List (α × α) × Option α) (last : α) :
    finish (s.1.map (Prod.map f f), s.2.map f) (f last) = (finish s last).map (Prod.map f f) := by
  obtain ⟨closed, first⟩ := s
  cases first <;> simp [finish]

theorem finish_eq_iff {s : List (α × α) × Option α} {last last' : α} :
    finish s last = finish s last' ↔ s.2.isSome = false ∨ last = last' := by
  obtain ⟨closed, first⟩ := s
  cases first <;> simp [finish]

theorem extents_ascending (good : Nat → Bool) (n : Nat) {f : Nat → Nat}
    (increasing : ∀ i j, i < j → f i < f j) :
    ((extents good n).map (Prod.map f f)).Pairwise fun r r' => r.2 < r'.1 := by
  unfold extents
  rw [← finish_map]
  exact finish_ascending (held_scan good n) increasing (f n)

theorem ascending_nodup {xs : List (Nat × Nat)} (ascending : xs.Pairwise fun r r' => r.2 < r'.1)
    (nonempty : ∀ r ∈ xs, r.1 < r.2) : xs.Nodup := by
  refine ascending.imp_of_mem ?_
  rintro r r' member - apart rfl
  have := nonempty r member
  omega

theorem ascending_ext {xs ys : List (Nat × Nat)} (left : xs.Pairwise fun r r' => r.2 < r'.1)
    (right : ys.Pairwise fun r r' => r.2 < r'.1) (nonempty : ∀ r ∈ ys, r.1 < r.2)
    (same : ∀ r, r ∈ xs ↔ r ∈ ys) : xs = ys := by
  have nonempty' : ∀ r ∈ xs, r.1 < r.2 := fun r member => nonempty r ((same r).mp member)
  refine List.Perm.eq_of_pairwise ?_ left right ((List.perm_ext_iff_of_nodup
    (ascending_nodup left nonempty') (ascending_nodup right nonempty)).mpr same)
  intro r r' here there before after
  have := nonempty' r here
  have := nonempty r' there
  omega

theorem exists_first (here : good j = true) :
    ∃ i, i ≤ j ∧ (∀ k, i ≤ k → k ≤ j → good k = true) ∧ (i = 0 ∨ good (i - 1) = false) := by
  induction j with
  | zero =>
    refine ⟨0, Nat.le_refl 0, fun k _ below => ?_, Or.inl rfl⟩
    rw [Nat.le_zero.mp below]
    exact here
  | succ j ih =>
    cases before : good j with
    | false =>
      refine ⟨j + 1, Nat.le_refl _, fun k above below => ?_, Or.inr before⟩
      rw [Nat.le_antisymm below above]
      exact here
    | true =>
      obtain ⟨i, le, all, left⟩ := ih before
      refine ⟨i, by omega, fun k above below => ?_, left⟩
      rcases Nat.lt_or_ge k (j + 1) with lower | last
      · exact all k above (by omega)
      · rw [Nat.le_antisymm below last]
        exact here

theorem exists_last (here : good j = true) (more : Nat) :
    ∃ stop, j < stop ∧ stop ≤ j + 1 + more ∧ (∀ k, j ≤ k → k < stop → good k = true) ∧
      (stop = j + 1 + more ∨ good stop = false) := by
  induction more with
  | zero =>
    refine ⟨j + 1, by omega, by omega, fun k above below => ?_, Or.inl rfl⟩
    have same : k = j := by omega
    rw [same]
    exact here
  | succ more ih =>
    obtain ⟨stop, after, inside, all, right⟩ := ih
    rcases right with same | bad
    · cases next : good stop with
      | false => exact ⟨stop, after, by omega, all, Or.inr next⟩
      | true =>
        refine ⟨stop + 1, by omega, by omega, fun k above below => ?_, Or.inl (by omega)⟩
        rcases Nat.lt_or_ge k stop with lower | high
        · exact all k above lower
        · have last : k = stop := by omega
          rw [last]
          exact next
    · exact ⟨stop, after, by omega, all, Or.inr bad⟩

/-- Every good place is in an extent, and no other. -/
theorem good_iff_mem (low : j < n) :
    good j = true ↔ ∃ r ∈ extents good n, r.1 ≤ j ∧ j < r.2 := by
  constructor
  · intro here
    obtain ⟨more, rfl⟩ : ∃ more, n = j + 1 + more := ⟨n - (j + 1), by omega⟩
    obtain ⟨i, le, all, left⟩ := exists_first here
    obtain ⟨stop, after, inside, rest, right⟩ := exists_last here more
    have extent : IsExtent good (j + 1 + more) (i, stop) := by
      refine ⟨Nat.lt_of_le_of_lt le after, inside, fun k above below => ?_, left, right⟩
      rcases Nat.lt_or_ge k j with lower | high
      · exact all k above (Nat.le_of_lt lower)
      · exact rest k high below
    exact ⟨(i, stop), mem_extents_iff.mpr extent, le, after⟩
  · rintro ⟨r, member, above, below⟩
    exact (mem_extents_iff.mp member).all j above below

theorem extents_succ (good : Nat → Bool) (n : Nat) :
    extents good (n + 1) = finish (advance (good n) (scan good (List.range n)) n) (n + 1) := by
  rw [extents, List.range_succ, scan_snoc]

/-- A scan that stops one place early finds the extents exactly when that place is like the one
before it. -/
theorem finish_next_iff : finish (scan good (List.range n)) (n + 1) = extents good (n + 1) ↔
    good n = endsGood good n := by
  rw [extents_succ, ← (held_scan good n).unopened]
  obtain ⟨closed, first⟩ := scan good (List.range n)
  cases good n with
  | true => cases first <;> simp [finish, advance]
  | false => cases first <;> simp [finish, advance]

theorem next_covered_iff :
    (∃ r ∈ finish (scan good (List.range n)) (n + 1), r.1 ≤ n ∧ n < r.2) ↔
      endsGood good n = true := by
  have held := held_scan good n
  rw [← held.unopened, Option.isSome_iff_exists]
  constructor
  · rintro ⟨r, member, -, above⟩
    rcases mem_finish.mp member with closed | ⟨first, begun, -⟩
    · have low := ((held.closed r).mp closed).2
      omega
    · exact ⟨first, begun⟩
  · rintro ⟨first, begun⟩
    have low : first < n := ((held.opened first).mp begun).nonempty
    exact ⟨(first, n + 1), mem_finish.mpr (Or.inr ⟨first, begun, rfl⟩), Nat.le_of_lt low,
      Nat.lt_succ_self n⟩

end Extents
