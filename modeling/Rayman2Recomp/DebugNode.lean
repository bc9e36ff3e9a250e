import Rayman2Recomp.Runs
import Mathlib.Data.List.Basic
import Mathlib.Data.List.Count
import Mathlib.Data.List.Nodup

open Runs

namespace Rayman2Recomp

/-- What `rayman2_debug_count` prints. -/
inductive CountLine
  | trace (seq : UInt64) (site : UInt32) (ms : Int)
  | firstVisit (site : UInt32)
  | summary (entries : List (UInt32 × UInt64))

/-- Its static variables: `sites` and `hits` up to `used`, the clock in nanoseconds. -/
structure CountState where
  table : List (UInt32 × UInt64)
  last : Int
  seq : UInt64
  t0 : Int

/-- A call with the readings of the clock in it; the first two set `last` and `t0` at the
first call. -/
structure CountCall where
  site : UInt32
  opened : Int
  started : Int
  traced : Int
  now : Int

/-- `++hits[i]` at the first place that holds the site. -/
def countHit (site : UInt32) : List (UInt32 × UInt64) → List (UInt32 × UInt64)
  | [] => []
  | entry :: table =>
    if entry.1 = site then (entry.1, entry.2 + 1) :: table else entry :: countHit site table

/-- The first 20000 calls print themselves. -/
def traceLine (s : CountState) (call : CountCall) : List CountLine :=
  if s.seq < 20000 then [.trace s.seq call.site ((call.traced - s.t0).tdiv 1000000)] else []

/-- The end of the function, every 250 ms. -/
def countSummary (s : CountState) (now : Int) : CountState × List CountLine :=
  if now - s.last < 250000000 then (s, [])
  else ({ s with last := now }, [.summary s.table])

def debugCount (statics : Option CountState) (call : CountCall) : CountState × List CountLine :=
  let s := statics.getD ⟨[], call.opened, 0, call.started⟩
  let traced := traceLine s call
  let s := { s with seq := s.seq + 1 }
  if call.site ∈ s.table.map Prod.fst then
    let counted := countSummary { s with table := countHit call.site s.table } call.now
    (counted.1, traced ++ counted.2)
  else if s.table.length = 64 then (s, traced)
  else
    let s := { s with table := s.table ++ [(call.site, 0)] }
    let counted := countSummary { s with table := countHit call.site s.table } call.now
    (counted.1, traced ++ .firstVisit call.site :: counted.2)

def countStep (statics : Option CountState) (call : CountCall) : Option CountState :=
  some (debugCount statics call).1

/-- The sites that get one of the 64 places. -/
def countedSites (sites : List UInt32) : List UInt32 := sites.eraseDups.take 64

/-- How often a site was visited, as `unsigned long long` counts. -/
def visits (sites : List UInt32) (site : UInt32) : UInt64 := UInt64.ofNat (sites.count site)

def tally (sites : List UInt32) : List (UInt32 × UInt64) :=
  (countedSites sites).map fun site => (site, visits sites site)

theorem eraseDups_snoc (sites : List UInt32) (site : UInt32) :
    (sites ++ [site]).eraseDups =
      if site ∈ sites then sites.eraseDups else sites.eraseDups ++ [site] := by
  rw [List.eraseDups_append]
  by_cases known : site ∈ sites
  · rw [if_pos known]
    simp [List.removeAll, known]
  · rw [if_neg known]
    simp [List.removeAll, known, List.eraseDups_cons]

theorem nodup_eraseDups (sites : List UInt32) : sites.eraseDups.Nodup := by
  induction sites using List.reverseRecOn with
  | nil => exact List.nodup_nil
  | append_singleton sites site ih =>
    rw [eraseDups_snoc]
    split
    next => exact ih
    next fresh =>
      have apart : site ∉ sites.eraseDups := fun h => fresh (List.mem_eraseDups.mp h)
      rw [List.nodup_append]
      refine ⟨ih, List.nodup_singleton site, fun a ha b hb same => ?_⟩
      obtain rfl := List.mem_singleton.mp hb
      exact apart (same ▸ ha)

theorem countedSites_subset {sites : List UInt32} {site : UInt32}
    (h : site ∈ countedSites sites) : site ∈ sites :=
  List.mem_eraseDups.mp (List.mem_of_mem_take h)

theorem nodup_countedSites (sites : List UInt32) : (countedSites sites).Nodup :=
  (nodup_eraseDups sites).sublist (List.take_sublist 64 _)

theorem visits_same (sites : List UInt32) (site : UInt32) :
    visits (sites ++ [site]) site = visits sites site + 1 := by
  rw [visits, List.count_append, List.count_singleton_self, UInt64.ofNat_add]
  rfl

theorem visits_other {sites : List UInt32} {site other : UInt32} (apart : site ≠ other) :
    visits (sites ++ [site]) other = visits sites other := by
  rw [visits, List.count_append, List.count_singleton, beq_false_of_ne apart]
  rfl

theorem countHit_tally {sites listed : List UInt32} {site : UInt32} (once : listed.Nodup) :
    countHit site (listed.map fun s => (s, visits sites s)) =
      listed.map fun s => (s, visits (sites ++ [site]) s) := by
  induction listed with
  | nil => rfl
  | cons s listed ih =>
    obtain ⟨fresh, once⟩ := List.nodup_cons.mp once
    rw [List.map_cons, List.map_cons, countHit]
    by_cases here : s = site
    · subst here
      have others : ∀ t ∈ listed, (t, visits sites t) = (t, visits (sites ++ [s]) t) := by
        intro t ht
        have other : s ≠ t := fun same => fresh (same ▸ ht)
        rw [visits_other other]
      rw [if_pos rfl, List.map_congr_left others, visits_same]
    · rw [if_neg here, ih once, visits_other (Ne.symm here)]

theorem tally_sites (sites : List UInt32) : (tally sites).map Prod.fst = countedSites sites := by
  rw [tally, List.map_map]
  exact List.map_id _

/-- A site that has a place is counted once more. -/
theorem tally_again {sites : List UInt32} {site : UInt32} (placed : site ∈ countedSites sites) :
    tally (sites ++ [site]) = countHit site (tally sites) := by
  have same : countedSites (sites ++ [site]) = countedSites sites := by
    rw [countedSites, eraseDups_snoc, if_pos (countedSites_subset placed), countedSites]
  rw [tally, tally, same, countHit_tally (nodup_countedSites sites)]

/-- A site that comes when every place is taken changes nothing. -/
theorem tally_full {sites : List UInt32} {site : UInt32} (other : site ∉ countedSites sites)
    (full : (countedSites sites).length = 64) : tally (sites ++ [site]) = tally sites := by
  have same : countedSites (sites ++ [site]) = countedSites sites := by
    have enough : 64 ≤ sites.eraseDups.length := by
      rw [countedSites, List.length_take] at full
      omega
    rw [countedSites, eraseDups_snoc]
    split
    next => rfl
    next => rw [List.take_append_of_le_length enough, countedSites]
  rw [tally, tally, same]
  refine List.map_congr_left (fun s hs => ?_)
  have apart : site ≠ s := fun h => other (h ▸ hs)
  rw [visits_other apart]

/-- A new site takes the next place. -/
theorem tally_new {sites : List UInt32} {site : UInt32} (other : site ∉ countedSites sites)
    (room : (countedSites sites).length ≠ 64) :
    site ∉ sites ∧ tally (sites ++ [site]) = countHit site (tally sites ++ [(site, 0)]) := by
  have few : sites.eraseDups.length < 64 := by
    rw [countedSites, List.length_take] at room
    omega
  have whole : countedSites sites = sites.eraseDups :=
    List.take_of_length_le (Nat.le_of_lt few)
  have fresh : site ∉ sites := by
    intro h
    rw [whole] at other
    exact other (List.mem_eraseDups.mpr h)
  have next : countedSites (sites ++ [site]) = countedSites sites ++ [site] := by
    rw [countedSites, eraseDups_snoc, if_neg fresh, whole]
    exact List.take_of_length_le (by rw [List.length_append, List.length_singleton]; omega)
  have added : tally sites ++ [(site, 0)] =
      (countedSites sites ++ [site]).map fun s => (s, visits sites s) := by
    rw [List.map_append, tally, List.map_singleton, visits, List.count_eq_zero.mpr fresh]
    rfl
  refine ⟨fresh, ?_⟩
  rw [added, countHit_tally (next ▸ nodup_countedSites _), tally, next]

/-- The table is the tally of the calls so far. -/
def Tallied (calls : List CountCall) (statics : Option CountState) : Prop :=
  ∀ call : CountCall,
    (statics.getD ⟨[], call.opened, 0, call.started⟩).table = tally (calls.map CountCall.site)

theorem countSummary_table (s : CountState) (now : Int) : (countSummary s now).1.table = s.table := by
  unfold countSummary
  split <;> rfl

theorem summary_mem {s : CountState} {now : Int} {entries : List (UInt32 × UInt64)}
    (printed : .summary entries ∈ (countSummary s now).2) : entries = s.table := by
  unfold countSummary at printed
  split at printed
  next => exact absurd printed List.not_mem_nil
  next =>
    cases List.mem_singleton.mp printed
    rfl

theorem firstVisit_countSummary (s : CountState) (now : Int) (site : UInt32) :
    .firstVisit site ∉ (countSummary s now).2 := by
  unfold countSummary
  split <;> simp

theorem summary_traceLine (s : CountState) (call : CountCall) (entries : List (UInt32 × UInt64)) :
    .summary entries ∉ traceLine s call := by
  unfold traceLine
  split <;> simp

theorem firstVisit_traceLine (s : CountState) (call : CountCall) (site : UInt32) :
    .firstVisit site ∉ traceLine s call := by
  unfold traceLine
  split <;> simp

/-- One call: the table it leaves, and the lines it can print but the trace. -/
theorem debugCount_step {calls : List CountCall} {statics : Option CountState}
    (tallied : Tallied calls statics) (call : CountCall) :
    (debugCount statics call).1.table = tally ((calls ++ [call]).map CountCall.site) ∧
      (∀ entries, .summary entries ∈ (debugCount statics call).2 →
        entries = tally ((calls ++ [call]).map CountCall.site)) ∧
      ∀ site, .firstVisit site ∈ (debugCount statics call).2 ↔
        site = call.site ∧ site ∉ calls.map CountCall.site ∧
          (countedSites (calls.map CountCall.site)).length ≠ 64 := by
  have table := tallied call
  unfold debugCount
  simp only
  generalize statics.getD ⟨[], call.opened, 0, call.started⟩ = s at table
  have places : s.table.map Prod.fst = countedSites (calls.map CountCall.site) := by
    rw [table, tally_sites]
  have length : s.table.length = (countedSites (calls.map CountCall.site)).length := by
    rw [← places, List.length_map]
  rw [List.map_append, List.map_singleton]
  generalize calls.map CountCall.site = sites at *
  rw [places, length]
  by_cases placed : call.site ∈ countedSites sites
  · rw [if_pos placed]
    have again := tally_again placed
    rw [← table] at again
    refine ⟨?_, fun entries printed => ?_, fun site => ?_⟩
    · rw [countSummary_table, again]
    · have late := (List.mem_append.mp printed).resolve_left (summary_traceLine s call entries)
      rw [summary_mem late, again]
    · simp only [List.mem_append, firstVisit_traceLine, firstVisit_countSummary, or_self, false_iff]
      intro h
      exact absurd (countedSites_subset placed) (h.1 ▸ h.2.1)
  rw [if_neg placed]
  by_cases full : (countedSites sites).length = 64
  · rw [if_pos full]
    have same := tally_full placed full
    refine ⟨?_, fun entries printed => ?_, fun site => ?_⟩
    · rw [same, table]
    · exact absurd printed (summary_traceLine s call entries)
    · simp only [firstVisit_traceLine, false_iff]
      exact fun h => h.2.2 full
  · rw [if_neg full]
    obtain ⟨fresh, next⟩ := tally_new placed full
    rw [← table] at next
    refine ⟨?_, fun entries printed => ?_, fun site => ?_⟩
    · rw [countSummary_table, next]
    · have late := (List.mem_append.mp printed).resolve_left (summary_traceLine s call entries)
      rcases List.mem_cons.mp late with first | late
      · cases first
      · rw [summary_mem late, next]
    · simp only [List.mem_append, firstVisit_traceLine, List.mem_cons, firstVisit_countSummary,
        CountLine.firstVisit.injEq, false_or, or_false]
      constructor
      · intro here
        rw [here]
        exact ⟨rfl, fresh, full⟩
      · exact fun h => h.1

theorem tallied_run (calls : List CountCall) : Tallied calls (run countStep none calls) := by
  induction calls using List.reverseRecOn with
  | nil => exact fun _ => rfl
  | append_singleton calls call ih =>
    rw [run_snoc]
    exact fun _ => (debugCount_step ih call).1

/-- Whatever is called and whenever the clock lets it print, every summary has the
visits so far of each of the first 64 sites, and a site is announced once, when it
comes first and has a place. -/
theorem debugCount_truthful (calls : List CountCall) (call : CountCall) :
    (∀ entries, .summary entries ∈ (debugCount (run countStep none calls) call).2 →
        entries = tally ((calls ++ [call]).map CountCall.site)) ∧
      ∀ site, .firstVisit site ∈ (debugCount (run countStep none calls) call).2 ↔
        site = call.site ∧ site ∉ calls.map CountCall.site ∧
          (countedSites (calls.map CountCall.site)).length ≠ 64 :=
  (debugCount_step (tallied_run calls) call).2

end Rayman2Recomp
