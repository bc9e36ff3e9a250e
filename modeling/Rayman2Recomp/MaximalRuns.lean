import Mathlib.Data.List.Basic

namespace MaximalRuns

variable {α : Type} {p : α → Bool} {s run current rest : List α} {a : α}

/-- The runs of a text, of which the letters in `current` were seen last. -/
def runsFrom (p : α → Bool) (current : List α) : List α → List (List α)
  | [] => if current.isEmpty then [] else [current]
  | a :: rest =>
    if p a then runsFrom p (current ++ [a]) rest
    else if current.isEmpty then runsFrom p [] rest
    else current :: runsFrom p [] rest

def runs (p : α → Bool) (s : List α) : List (List α) := runsFrom p [] s

end MaximalRuns
