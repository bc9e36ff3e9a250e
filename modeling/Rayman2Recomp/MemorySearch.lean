import Rayman2Recomp.HostRam
import Rayman2Recomp.Runs

open Runs

namespace Rayman2Recomp

inductive Direction
  | down
  | same
  | up

structure MemorySearch where
  snapshot : List UInt32
  candidates : List Nat
  started : Bool
  publishedCandidates : Nat
  narrowings : UInt64
  publishedStarted : Bool

def MemorySearch.idle : MemorySearch := ⟨[], [], false, 0, 0, false⟩

def readWord (ram : HostRam) (offset : Nat) : UInt32 := hostWord ram offset

def asSigned (word : UInt32) : Int := word.toBitVec.toInt

def publishSearch (s : MemorySearch) : MemorySearch :=
  { s with publishedCandidates := s.candidates.length, publishedStarted := s.started }

def startSearch (s : MemorySearch) (ram : HostRam) : MemorySearch :=
  publishSearch
    { s with
      candidates := (List.range kWords).map fun i => i * 4
      snapshot := (List.range kWords).map fun i => readWord ram (i * 4)
      started := true
      narrowings := 0 }

def Direction.keeps (direction : Direction) (before after : UInt32) : Bool :=
  match direction with
  | .down => asSigned after < asSigned before
  | .same => asSigned after == asSigned before
  | .up => asSigned after > asSigned before

def narrowSearch (s : MemorySearch) (ram : HostRam) (direction : Direction) : MemorySearch :=
  if !s.started then s
  else
    let kept := (s.candidates.zip s.snapshot).filterMap fun (offset, before) =>
      let now := readWord ram offset
      if direction.keeps before now then some (offset, now) else none
    publishSearch
      { s with
        candidates := kept.map Prod.fst
        snapshot := kept.map Prod.snd
        narrowings := s.narrowings + 1 }

structure Narrowing where
  direction : Direction
  ram : HostRam

inductive SearchCall
  | start (ram : HostRam)
  | narrow (narrowing : Narrowing)

def searchStep (s : MemorySearch) : SearchCall → MemorySearch
  | .start ram => startSearch s ram
  | .narrow narrowing => narrowSearch s narrowing.ram narrowing.direction

/-- A word goes the way each narrowing says, from one memory to the next. -/
def follows (ram : HostRam) : List Narrowing → Nat → Bool
  | [], _ => true
  | ⟨.down, next⟩ :: rest, o =>
    asSigned (readWord next o) < asSigned (readWord ram o) && follows next rest o
  | ⟨.same, next⟩ :: rest, o =>
    asSigned (readWord next o) = asSigned (readWord ram o) && follows next rest o
  | ⟨.up, next⟩ :: rest, o =>
    asSigned (readWord ram o) < asSigned (readWord next o) && follows next rest o

def lastRam (ram : HostRam) (narrowings : List Narrowing) : HostRam :=
  narrowings.foldl (fun _ n => n.ram) ram

section Narrowings

variable {ram : HostRam} {narrowings : List Narrowing} {s : MemorySearch}

theorem lastRam_snoc (ram : HostRam) (narrowings : List Narrowing) (n : Narrowing) :
    lastRam ram (narrowings ++ [n]) = n.ram := by
  rw [lastRam, List.foldl_append]
  rfl

theorem follows_cons (ram : HostRam) (n : Narrowing) (rest : List Narrowing) (o : Nat) :
    follows ram (n :: rest) o =
      (n.direction.keeps (readWord ram o) (readWord n.ram o) && follows n.ram rest o) := by
  obtain ⟨direction, next⟩ := n
  cases direction with
  | down => rfl
  | same => rfl
  | up => rfl

theorem follows_snoc (ram : HostRam) (narrowings : List Narrowing) (n : Narrowing) (o : Nat) :
    follows ram (narrowings ++ [n]) o =
      (follows ram narrowings o &&
        n.direction.keeps (readWord (lastRam ram narrowings) o) (readWord n.ram o)) := by
  induction narrowings generalizing ram with
  | nil => simp [follows_cons, follows, lastRam]
  | cons first rest ih =>
    rw [List.cons_append, follows_cons, follows_cons, ih, Bool.and_assoc]
    rfl

structure SearchHeld (ram : HostRam) (narrowings : List Narrowing) (s : MemorySearch) : Prop where
  candidates : s.candidates = wordOffsets.filter (follows ram narrowings)
  snapshot : s.snapshot = s.candidates.map (readWord (lastRam ram narrowings))
  started : s.started = true
  count : s.narrowings = UInt64.ofNat narrowings.length
  published : s.publishedCandidates = s.candidates.length ∧ s.publishedStarted = true

theorem searchHeld_start (s : MemorySearch) (ram : HostRam) :
    SearchHeld ram [] (startSearch s ram) := by
  have all : wordOffsets.filter (follows ram []) = wordOffsets :=
    List.filter_eq_self.mpr fun _ _ => rfl
  refine ⟨all.symm, ?_, rfl, rfl, rfl, rfl⟩
  have words : (startSearch s ram).snapshot = wordOffsets.map (readWord ram) := by
    rw [wordOffsets, List.map_map]
    rfl
  exact words

theorem kept_offsets (ram : HostRam) (direction : Direction) (before : Nat → UInt32)
    (offsets : List Nat) :
    (offsets.zip (offsets.map before)).filterMap (fun (entry : Nat × UInt32) =>
        if direction.keeps entry.2 (readWord ram entry.1) then
          some (entry.1, readWord ram entry.1) else none) =
      (offsets.filter fun o => direction.keeps (before o) (readWord ram o)).map fun o =>
        (o, readWord ram o) := by
  induction offsets with
  | nil => rfl
  | cons o rest ih =>
    rw [List.map_cons, List.zip_cons_cons, List.filterMap_cons, ih]
    cases keeps : direction.keeps (before o) (readWord ram o) <;> simp [keeps]

theorem searchHeld_narrow (held : SearchHeld ram narrowings s) (n : Narrowing) :
    SearchHeld ram (narrowings ++ [n]) (narrowSearch s n.ram n.direction) := by
  obtain ⟨candidates, snapshot, started, count, _⟩ := held
  have kept := kept_offsets n.ram n.direction (readWord (lastRam ram narrowings)) s.candidates
  have step : narrowSearch s n.ram n.direction =
      publishSearch
        { s with
          candidates := s.candidates.filter fun o =>
            n.direction.keeps (readWord (lastRam ram narrowings) o) (readWord n.ram o)
          snapshot := (s.candidates.filter fun o =>
            n.direction.keeps (readWord (lastRam ram narrowings) o) (readWord n.ram o)).map
              (readWord n.ram)
          narrowings := s.narrowings + 1 } := by
    unfold narrowSearch
    rw [started, snapshot]
    simp only [Bool.not_true, Bool.false_eq_true, if_false, kept, List.map_map]
    simp [Function.comp_def]
  rw [step]
  refine ⟨?_, ?_, started, ?_, rfl, started⟩
  · have filtered : s.candidates.filter (fun o =>
        n.direction.keeps (readWord (lastRam ram narrowings) o) (readWord n.ram o)) =
        wordOffsets.filter (follows ram (narrowings ++ [n])) := by
      rw [candidates, List.filter_filter]
      refine List.filter_congr fun o _ => ?_
      rw [follows_snoc, Bool.and_comm]
    exact filtered
  · rw [lastRam_snoc]
    rfl
  · rw [List.length_append, List.length_singleton, UInt64.ofNat_add, ← count]
    rfl

theorem searchHeld_run (s : MemorySearch) (ram : HostRam) (narrowings : List Narrowing) :
    SearchHeld ram narrowings
      (run searchStep s (.start ram :: narrowings.map SearchCall.narrow)) := by
  induction narrowings using List.reverseRecOn with
  | nil => exact searchHeld_start s ram
  | append_singleton rest n ih =>
    rw [List.map_append, List.map_singleton, ← List.cons_append, run_snoc]
    exact searchHeld_narrow ih n

end Narrowings

theorem startSearch_forgets (s s' : MemorySearch) (ram : HostRam) :
    startSearch s ram = startSearch s' ram := rfl

theorem narrow_unstarted (narrowings : List Narrowing) :
    run searchStep .idle (narrowings.map SearchCall.narrow) = .idle := by
  induction narrowings with
  | nil => rfl
  | cons n rest ih =>
    rw [List.map_cons, run_cons]
    exact ih

/-- The candidates are the words that went every way they were asked to since the
last start, with their latest values. -/
theorem search_candidates (earlier : List SearchCall) (ram : HostRam)
    (narrowings : List Narrowing) :
    let s := run searchStep .idle (earlier ++ .start ram :: narrowings.map SearchCall.narrow)
    (s.candidates.Pairwise (· < ·) ∧
      ∀ o, o ∈ s.candidates ↔ o % 4 = 0 ∧ o < kRamSize ∧ follows ram narrowings o = true) ∧
    (s.snapshot.length = s.candidates.length ∧
      ∀ j o : Nat, s.candidates[j]? = some o →
        s.snapshot[j]? = some (readWord (lastRam ram narrowings) o)) ∧
    s.narrowings = UInt64.ofNat narrowings.length ∧
    s.publishedCandidates = s.candidates.length ∧
    s = run searchStep .idle (.start ram :: narrowings.map SearchCall.narrow) ∧
    run searchStep .idle (narrowings.map SearchCall.narrow) = .idle := by
  intro s
  have from_start : s = run searchStep (run searchStep .idle earlier)
      (.start ram :: narrowings.map SearchCall.narrow) := run_append _ _ _ _
  have forgets : s = run searchStep .idle (.start ram :: narrowings.map SearchCall.narrow) := by
    rw [from_start, run_cons, run_cons]
    exact congrArg (fun s => run searchStep s _) (startSearch_forgets _ _ ram)
  have held : SearchHeld ram narrowings s := by
    rw [forgets]
    exact searchHeld_run _ ram narrowings
  refine ⟨⟨?_, fun o => ?_⟩, ⟨?_, fun j o here => ?_⟩, held.count, held.published.1, forgets,
    narrow_unstarted narrowings⟩
  · rw [held.candidates]
    exact wordOffsets_ascending.filter _
  · rw [held.candidates, List.mem_filter, mem_wordOffsets, and_assoc]
  · rw [held.snapshot, List.length_map]
  · rw [held.snapshot, List.getElem?_map, here]
    rfl

end Rayman2Recomp
