import Rayman2Recomp.MemorySearch
import Mathlib.Logic.Function.Basic

open Runs

namespace Rayman2Recomp

inductive SearchKey
  | f5
  | f6
  | f7
  | f8
deriving DecidableEq

def SearchKey.call (ram : HostRam) : SearchKey → SearchCall
  | f5 => .start ram
  | f6 => .narrow ⟨.down, ram⟩
  | f7 => .narrow ⟨.same, ram⟩
  | f8 => .narrow ⟨.up, ram⟩

abbrev Keyboard := SearchKey → Bool

/-- The search and `was_down` of its four keys. -/
structure KeyedSearch where
  search : MemorySearch
  wasDown : Keyboard

def KeyedSearch.start : KeyedSearch := ⟨.idle, fun _ => false⟩

/-- `pressed`, and what a press does. -/
def pressKey (down : Keyboard) (ram : HostRam) (s : KeyedSearch) (key : SearchKey) : KeyedSearch where
  search := if down key && !s.wasDown key then searchStep s.search (key.call ram) else s.search
  wasDown := Function.update s.wasDown key (down key)

def searchKeys : List SearchKey := [.f5, .f6, .f7, .f8]

/-- A poll without RDRAM or without the keys' states returns at once. -/
inductive SearchPoll
  | away
  | keys (down : Keyboard) (ram : HostRam)

/-- `memory_search_poll` when it is armed and takes its labels from the keys. -/
def memorySearchPoll (s : KeyedSearch) : SearchPoll → KeyedSearch
  | .away => s
  | .keys down ram => searchKeys.foldl (pressKey down ram) s

def SearchPoll.keyboard? : SearchPoll → Option Keyboard
  | away => none
  | keys down _ => some down

/-- The keys as they were last looked at. -/
def lastKeys (polls : List SearchPoll) : Keyboard :=
  (polls.filterMap SearchPoll.keyboard?).getLastD fun _ => false

/-- The keys that have gone down at a poll, in the order they are asked for. -/
def pressesAt (before : List SearchPoll) : SearchPoll → List SearchCall
  | .away => []
  | .keys down ram =>
    (searchKeys.filter fun key => down key && !lastKeys before key).map fun key => key.call ram

def presses (polls : List SearchPoll) : List SearchCall :=
  (List.range polls.length).flatMap fun i => (polls[i]?).elim [] (pressesAt (polls.take i))

/-- The memory of the last start among the calls, and the narrowings since. -/
def sinceStart (calls : List SearchCall) : Option (HostRam × List Narrowing) :=
  calls.foldl (fun found call =>
    match call with
    | .start ram => some (ram, [])
    | .narrow n => found.map fun f => (f.1, f.2 ++ [n])) none

theorem presses_snoc (polls : List SearchPoll) (p : SearchPoll) :
    presses (polls ++ [p]) = presses polls ++ pressesAt polls p := by
  have before : ∀ i ∈ List.range polls.length,
      ((polls ++ [p])[i]?).elim [] (pressesAt ((polls ++ [p]).take i)) =
        (polls[i]?).elim [] (pressesAt (polls.take i)) := by
    intro i inside
    have lt := List.mem_range.mp inside
    rw [List.getElem?_append_left lt, List.take_append_of_le_length (Nat.le_of_lt lt)]
  unfold presses
  rw [List.length_append, List.length_singleton, List.range_succ, List.flatMap_append,
    List.flatMap_congr before, List.flatMap_singleton, List.getElem?_concat_length, Option.elim_some,
    List.take_left]

theorem lastKeys_snoc (polls : List SearchPoll) (p : SearchPoll) :
    lastKeys (polls ++ [p]) = p.keyboard?.getD (lastKeys polls) := by
  unfold lastKeys
  rw [List.filterMap_append]
  cases p with
  | away => simp [SearchPoll.keyboard?]
  | keys down ram => simp [SearchPoll.keyboard?]

theorem sinceStart_snoc (calls : List SearchCall) (call : SearchCall) :
    sinceStart (calls ++ [call]) =
      match call with
      | .start ram => some (ram, [])
      | .narrow n => (sinceStart calls).map fun f => (f.1, f.2 ++ [n]) := by
  rw [sinceStart, List.foldl_append]
  rfl

/-- Each key answers for itself, so the four turns of one poll can be taken apart. -/
theorem foldl_pressKey (down : Keyboard) (ram : HostRam) {keys : List SearchKey}
    (distinct : keys.Nodup) (s : KeyedSearch) :
    (keys.foldl (pressKey down ram) s).search = run searchStep s.search
        ((keys.filter fun key => down key && !s.wasDown key).map fun key => key.call ram) ∧
      ∀ key, (keys.foldl (pressKey down ram) s).wasDown key =
        if key ∈ keys then down key else s.wasDown key := by
  induction keys generalizing s with
  | nil => exact ⟨rfl, fun key => rfl⟩
  | cons key keys ih =>
    obtain ⟨fresh, distinct⟩ := List.nodup_cons.mp distinct
    obtain ⟨search, wasDown⟩ := ih distinct (pressKey down ram s key)
    have others : ∀ other ∈ keys, (pressKey down ram s key).wasDown other = s.wasDown other := by
      intro other member
      have differ : other ≠ key := fun same => fresh (same ▸ member)
      exact Function.update_of_ne differ _ _
    have filtered : keys.filter (fun other => down other && !(pressKey down ram s key).wasDown other) =
        keys.filter fun other => down other && !s.wasDown other :=
      List.filter_congr fun other member => by rw [others other member]
    rw [filtered] at search
    constructor
    · rw [List.foldl_cons, search, List.filter_cons]
      cases edge : down key && !s.wasDown key with
      | false => simp [pressKey, edge]
      | true => simp [pressKey, edge]
    · intro other
      rw [List.foldl_cons, wasDown]
      by_cases same : other = key
      · subst other
        simp [fresh, pressKey]
      · simp [same, pressKey]

theorem run_presses (polls : List SearchPoll) :
    (run memorySearchPoll .start polls).search = run searchStep .idle (presses polls) ∧
      (run memorySearchPoll .start polls).wasDown = lastKeys polls := by
  induction polls using List.reverseRecOn with
  | nil => exact ⟨rfl, rfl⟩
  | append_singleton polls p ih =>
    obtain ⟨search, wasDown⟩ := ih
    rw [run_snoc, presses_snoc, lastKeys_snoc, run_append, ← search]
    cases p with
    | away => exact ⟨rfl, wasDown⟩
    | keys down ram =>
      have four : searchKeys.Nodup := by decide
      obtain ⟨searched, keyed⟩ := foldl_pressKey down ram four (run memorySearchPoll .start polls)
      rw [wasDown] at searched
      refine ⟨searched, funext fun key => (keyed key).trans (if_pos ?_)⟩
      cases key <;> decide

theorem run_sinceStart (calls : List SearchCall) :
    match sinceStart calls with
    | none => run searchStep .idle calls = .idle
    | some (ram, narrowings) => SearchHeld ram narrowings (run searchStep .idle calls) := by
  induction calls using List.reverseRecOn with
  | nil => rfl
  | append_singleton calls call ih =>
    rw [sinceStart_snoc, run_snoc]
    cases call with
    | start ram => exact searchHeld_start _ ram
    | narrow n =>
      cases found : sinceStart calls with
      | none =>
        rw [found] at ih
        change narrowSearch (run searchStep .idle calls) n.ram n.direction = .idle
        rw [ih]
        rfl
      | some last =>
        rw [found] at ih
        exact searchHeld_narrow ih n

/-- However the keys are held, the search has done one start or narrowing for each time one of them
went down, so its candidates are what the labels since the last start leave. -/
theorem keys_search (polls : List SearchPoll) :
    (run memorySearchPoll .start polls).search = run searchStep .idle (presses polls) ∧
      match sinceStart (presses polls) with
      | none => (run memorySearchPoll .start polls).search = .idle
      | some (ram, narrowings) =>
        SearchHeld ram narrowings (run memorySearchPoll .start polls).search := by
  have made := (run_presses polls).1
  rw [made]
  exact ⟨rfl, run_sinceStart (presses polls)⟩

/-- A key that stays down runs the search once. -/
example (ram : HostRam) : presses (List.replicate 3 (.keys (fun key => key = .f5) ram)) =
    [.start ram] := rfl

end Rayman2Recomp
