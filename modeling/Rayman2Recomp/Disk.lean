import Rayman2Recomp.Runs
import Mathlib.Logic.Function.Basic

open Runs

namespace Disk

abbrev Bytes := List UInt8

structure FsPath where
  parent : String
  name : String
deriving DecidableEq

/-- The files there are, and what each one holds. -/
abbrev Files := FsPath → Option Bytes

/-- What the system answers while one file is looked up, opened and read. -/
structure ReadOutcome where
  existsOk : Bool
  openOk : Bool
  count : Nat

/-- What the system answers while one file is opened with truncation and written. -/
structure WriteOutcome where
  openOk : Bool
  count : Nat

/-- A failing status query counts as an absent file, as `exists(path, ec)` has it. -/
def Files.exists (files : Files) (path : FsPath) (o : ReadOutcome) : Bool :=
  o.existsOk && (files path).isSome

def Files.openRead (files : Files) (path : FsPath) (o : ReadOutcome) : Option Bytes :=
  if o.openOk then files path else none

def readBytes (contents : Bytes) (size : Nat) (o : ReadOutcome) : Bytes :=
  contents.take (min size o.count)

/-- The steps a process can be killed between. -/
inductive FileStep
  | truncate (path : FsPath)
  | put (path : FsPath) (byte : UInt8)
  | close (path : FsPath)
deriving DecidableEq

def FileStep.path : FileStep → FsPath
  | truncate path | put path _ | close path => path

def Files.apply (files : Files) : FileStep → Files
  | .truncate path => Function.update files path (some [])
  | .put path byte => Function.update files path (some ((files path).getD [] ++ [byte]))
  | .close _ => files

def rewrite (path : FsPath) (bytes : Bytes) : List FileStep :=
  .truncate path :: (bytes.map (FileStep.put path) ++ [.close path])

/-- The same through a stream that may fail to open or store only a prefix. -/
def Files.rewriteFile (files : Files) (path : FsPath) (bytes : Bytes) (o : WriteOutcome) :
    Option Files :=
  if o.openOk then some (run Files.apply files (rewrite path (bytes.take o.count))) else none

theorem apply_other {files : Files} {step : FileStep} {path : FsPath} (h : step.path ≠ path) :
    files.apply step path = files path := by
  cases step with
  | close => rfl
  | truncate | put => exact Function.update_of_ne (Ne.symm h) _ _

/-- What a file holds depends only on the steps made on it. -/
theorem run_apply_filter (files : Files) (steps : List FileStep) (path : FsPath) :
    run Files.apply files steps path =
      run Files.apply files (steps.filter (·.path = path)) path := by
  induction steps using List.reverseRecOn with
  | nil => rfl
  | append_singleton steps step ih =>
    rw [List.filter_append, run_snoc]
    by_cases h : step.path = path
    · rw [List.filter_cons_of_pos (by simpa using h), List.filter_nil, run_snoc]
      subst path
      cases step with
      | close => exact ih
      | truncate path => simp [Files.apply, FileStep.path]
      | put path byte =>
        simp only [FileStep.path] at ih ⊢
        simp [Files.apply, ih]
    · rw [List.filter_cons_of_neg (by simpa using h), List.filter_nil, List.append_nil,
        apply_other h, ih]

theorem run_put (files : Files) (path : FsPath) (old bytes : Bytes) (h : files path = some old) :
    run Files.apply files (bytes.map (FileStep.put path)) =
      Function.update files path (some (old ++ bytes)) := by
  induction bytes generalizing files old with
  | nil => simp [← h]
  | cons byte bytes ih =>
    rw [List.map_cons, run_cons, ih _ (old ++ [byte]) (by simp [Files.apply, h])]
    simp [Files.apply]

/-- What is left of a file when rewriting it is cut off after `k` steps. -/
theorem run_rewrite_take (files : Files) (path : FsPath) (bytes : Bytes) (k : Nat) :
    run Files.apply files ((rewrite path bytes).take (k + 1)) =
      Function.update files path (some (bytes.take k)) := by
  have start : Files.apply files (.truncate path) path = some [] := by simp [Files.apply]
  have puts := run_put (files.apply (.truncate path)) path [] (bytes.take k) start
  rw [rewrite, List.take_succ_cons, run_cons, List.take_append, run_append, ← List.map_take, puts]
  have closed : ∀ n (f : Files), run Files.apply f (([.close path] : List FileStep).take n) = f := by
    intro n f
    cases n <;> simp [Files.apply]
  rw [closed]
  simp [Files.apply]

theorem run_rewrite (files : Files) (path : FsPath) (bytes : Bytes) :
    run Files.apply files (rewrite path bytes) = Function.update files path (some bytes) := by
  have whole := run_rewrite_take files path bytes (bytes.length + 1)
  rwa [List.take_of_length_le (by simp [rewrite]), List.take_of_length_le (by omega)] at whole

theorem rewriteFile_eq (files : Files) (path : FsPath) (bytes : Bytes) (o : WriteOutcome) :
    files.rewriteFile path bytes o =
      if o.openOk then some (Function.update files path (some (bytes.take o.count))) else none := by
  simp only [Files.rewriteFile, run_rewrite]

theorem rewrite_path {path : FsPath} {bytes : Bytes} {step : FileStep}
    (h : step ∈ rewrite path bytes) : step.path = path := by
  simp only [rewrite, List.mem_cons, List.mem_append, List.mem_map, List.not_mem_nil, or_false] at h
  rcases h with rfl | ⟨byte, _, rfl⟩ | rfl <;> rfl

end Disk
