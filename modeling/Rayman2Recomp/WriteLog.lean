import Mathlib.Data.List.Induction
import Mathlib.Logic.Function.Basic

namespace WriteLog

variable {κ ν : Type} [DecidableEq κ]

/-- The value the last write to a key stored, if there was one. -/
def latest (log : List (κ × ν)) (k : κ) : Option ν :=
  ((log.filter (·.1 = k)).getLast?).map Prod.snd

def contents (initial : κ → ν) (log : List (κ × ν)) : κ → ν :=
  fun k => (latest log k).getD (initial k)

@[simp] theorem contents_nil (initial : κ → ν) : contents initial [] = initial := rfl

theorem latest_skip (before after : List (κ × ν)) {k : κ} {w : κ × ν} (h : w.1 ≠ k) :
    latest (before ++ w :: after) k = latest (before ++ after) k := by
  rw [latest, List.filter_append, List.filter_cons_of_neg (by simpa using h), ← List.filter_append]
  rfl

theorem contents_skip (initial : κ → ν) (before after : List (κ × ν)) {k : κ} {w : κ × ν}
    (h : w.1 ≠ k) :
    contents initial (before ++ w :: after) k = contents initial (before ++ after) k := by
  rw [contents, latest_skip before after h]
  rfl

theorem contents_snoc (initial : κ → ν) (log : List (κ × ν)) (w : κ × ν) :
    contents initial (log ++ [w]) = Function.update (contents initial log) w.1 w.2 := by
  funext k
  by_cases h : k = w.1
  · subst k
    simp [contents, latest, List.filter_append]
  · rw [contents_skip initial log [] (Ne.symm h), List.append_nil, Function.update_of_ne h]

theorem contents_append (initial : κ → ν) (log more : List (κ × ν)) :
    contents initial (log ++ more) = contents (contents initial log) more := by
  induction more using List.reverseRecOn with
  | nil => rw [List.append_nil, contents_nil]
  | append_singleton more w ih => rw [← List.append_assoc, contents_snoc, contents_snoc, ih]

end WriteLog
