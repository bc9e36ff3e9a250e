import Mathlib.Data.List.Basic
import Mathlib.Data.List.Infix

namespace Segments

variable {α : Type} [BEq α] [LawfulBEq α] {a : α} {xs ys : List α}

/-- The segments of a text that its separators end. -/
def complete (a : α) (xs : List α) : List (List α) := (xs.splitOn a).dropLast

def remainder (a : α) (xs : List α) : List α := (xs.splitOn a).getLastD []

theorem complete_of_not_mem (h : a ∉ xs) : complete a xs = [] := by
  rw [complete, List.splitOn_eq_singleton h]
  rfl

theorem remainder_of_not_mem (h : a ∉ xs) : remainder a xs = xs := by
  rw [remainder, List.splitOn_eq_singleton h]
  rfl

theorem complete_sep (xs ys : List α) :
    complete a (xs ++ a :: ys) = xs.splitOn a ++ complete a ys := by
  rw [complete, List.splitOn_append_cons_self,
    List.dropLast_append_of_ne_nil (List.splitOn_ne_nil a ys)]
  rfl

theorem remainder_sep (xs ys : List α) : remainder a (xs ++ a :: ys) = remainder a ys := by
  obtain ⟨front, last, split⟩ := List.eq_nil_or_concat (ys.splitOn a) |>.resolve_left
    (List.splitOn_ne_nil a ys)
  rw [remainder, remainder, List.splitOn_append_cons_self, split, List.concat_eq_append,
    ← List.append_assoc, List.getLastD_concat, List.getLastD_concat]

theorem complete_first (h : a ∉ xs) : complete a (xs ++ a :: ys) = xs :: complete a ys := by
  rw [complete_sep, List.splitOn_eq_singleton h]
  rfl

theorem last_separator (a : α) (xs : List α) :
    a ∉ xs ∨ ∃ before after, xs = before ++ a :: after ∧ a ∉ after := by
  by_cases mem : a ∈ xs
  · right
    obtain ⟨after, before, split, fresh⟩ := List.eq_append_cons_of_mem (List.mem_reverse.mpr mem)
    have turned := congrArg List.reverse split
    rw [List.reverse_reverse, List.reverse_append, List.reverse_cons, List.append_assoc,
      List.singleton_append] at turned
    exact ⟨before.reverse, after.reverse, turned, by simpa using fresh⟩
  · exact Or.inl mem

theorem remainder_not_mem (a : α) (xs : List α) : a ∉ remainder a xs := by
  rcases last_separator a xs with none_there | ⟨before, after, rfl, fresh⟩
  · rwa [remainder_of_not_mem none_there]
  · rwa [remainder_sep, remainder_of_not_mem fresh]

theorem remainder_suffix (a : α) (xs : List α) : remainder a xs <:+ xs := by
  rcases last_separator a xs with none_there | ⟨before, after, rfl, fresh⟩
  · rw [remainder_of_not_mem none_there]
  · rw [remainder_sep, remainder_of_not_mem fresh]
    exact ⟨before ++ [a], by simp⟩

omit [LawfulBEq α] in
theorem mem_of_mem_splitOn {segment : List α} {c : α} (mem : segment ∈ xs.splitOn a)
    (here : c ∈ segment) : c ∈ xs := by
  induction xs generalizing segment with
  | nil =>
    rw [List.splitOn_nil, List.mem_singleton] at mem
    rw [mem] at here
    cases here
  | cons x xs ih =>
    rw [List.splitOn_cons_eq_if_modifyHead] at mem
    split at mem
    next =>
      rcases List.mem_cons.mp mem with rfl | later
      · cases here
      · exact List.mem_cons_of_mem x (ih later here)
    next =>
      obtain ⟨first, rest, split⟩ := List.exists_cons_of_ne_nil (List.splitOn_ne_nil a xs)
      rw [split] at mem ih
      rcases List.mem_cons.mp mem with rfl | later
      · rcases List.mem_cons.mp here with rfl | inside
        · exact List.mem_cons_self
        · exact List.mem_cons_of_mem x (ih List.mem_cons_self inside)
      · exact List.mem_cons_of_mem x (ih (List.mem_cons_of_mem first later) here)

/-- Text that comes later goes on from the remainder. -/
theorem complete_append (a : α) (xs ys : List α) :
    complete a (xs ++ ys) = complete a xs ++ complete a (remainder a xs ++ ys) := by
  rcases last_separator a xs with none_there | ⟨before, after, rfl, fresh⟩
  · rw [complete_of_not_mem none_there, remainder_of_not_mem none_there]
    rfl
  · rw [List.append_assoc, List.cons_append, complete_sep, complete_sep, remainder_sep,
      remainder_of_not_mem fresh, complete_of_not_mem fresh, List.append_nil]

theorem remainder_append (a : α) (xs ys : List α) :
    remainder a (xs ++ ys) = remainder a (remainder a xs ++ ys) := by
  rcases last_separator a xs with none_there | ⟨before, after, rfl, fresh⟩
  · rw [remainder_of_not_mem none_there]
  · rw [List.append_assoc, List.cons_append, remainder_sep, remainder_sep,
      remainder_of_not_mem fresh]

end Segments
