import Rayman2Recomp.DebugReport
import Rayman2Recomp.MaximalRuns

open Disk MaximalRuns

namespace Rayman2Recomp

/-- The words of a line: its maximal runs of letters, lower-cased. -/
def words (line : Bytes) : List Bytes := (runs isAlpha line).map (List.map toLower)

variable {s word : Bytes} {pos start : Nat}

example : (classify (ascii "errors error"), classify (ascii "preassert WARNING"),
    classify (ascii "no errors")) = (.error, .warn, .log) := by decide

end Rayman2Recomp
