import Rayman2Recomp.Retention
import Mathlib.Data.List.Lex
import Mathlib.Logic.Function.Basic

open Retention

namespace Rayman2Recomp

/-- A name as the file system compares it, code unit after code unit. -/
abbrev FileName := List Nat

def codeUnits (s : String) : FileName := s.toList.map Char.toNat

/-- What the status of an entry says; of a broken one the query fails. -/
inductive EntryKind
  | regular
  | directory
  | other
  | broken
deriving DecidableEq

structure FolderEntry where
  name : FileName
  kind : EntryKind
deriving DecidableEq

structure Folder where
  entries : List FolderEntry
  distinct : (entries.map FolderEntry.name).Nodup

def Folder.names (f : Folder) : List FileName := f.entries.map FolderEntry.name

/-- What the system answers for one folder: which names can be opened for writing and which can be
removed, and what a listing yields. -/
structure Volume where
  opens : FileName → Bool
  removes : FileName → Bool
  listing : List FolderEntry → List FolderEntry
  listing_subperm : ∀ entries, (listing entries).Subperm entries

/-- `path::extension` of a name that a listing yields. -/
def extension (name : FileName) : FileName :=
  let suffix := (name.reverse.takeWhile (· ≠ 0x2E)).reverse
  if suffix.length + 1 < name.length then 0x2E :: suffix else []

def isReport (e : FolderEntry) : Bool := e.kind = .regular && extension e.name = codeUnits ".txt"

/-- A file opened for writing is there afterwards; a broken link's target is. -/
def openedEntries (entries : List FolderEntry) (name : FileName) : List FolderEntry :=
  if name ∈ entries.map FolderEntry.name then
    entries.map fun e => if e.name = name ∧ e.kind = .broken then ⟨name, .regular⟩ else e
  else entries ++ [⟨name, .regular⟩]

theorem openedEntries_names (entries : List FolderEntry) (name : FileName) :
    (openedEntries entries name).map FolderEntry.name =
      if name ∈ entries.map FolderEntry.name then entries.map FolderEntry.name
      else entries.map FolderEntry.name ++ [name] := by
  unfold openedEntries
  split
  next =>
    rw [List.map_map]
    apply List.map_congr_left
    intro e _
    simp only [Function.comp_apply]
    split
    next found => exact found.1.symm
    next => rfl
  next => simp

def Folder.opened (f : Folder) (name : FileName) : Folder where
  entries := openedEntries f.entries name
  distinct := by
    rw [openedEntries_names]
    split
    next => exact f.distinct
    next fresh =>
      refine List.nodup_append.mpr ⟨f.distinct, List.nodup_singleton name, ?_⟩
      rintro a member b same rfl
      exact fresh (List.mem_singleton.mp same ▸ member)

def Folder.removed (f : Folder) (name : FileName) : Folder where
  entries := f.entries.filter fun e => e.name ≠ name
  distinct := f.distinct.sublist (List.filter_sublist.map _)

/-- `fopen` for writing. -/
def fopenWrite (v : Volume) (f : Folder) (name : FileName) : Option Folder :=
  if v.opens name = true ∧ ⟨name, .directory⟩ ∉ f.entries then some (f.opened name) else none

def fsRemove (v : Volume) (f : Folder) (name : FileName) : Folder :=
  if v.removes name then f.removed name else f

def kKeepReports : Nat := 50

/-- One turn of the listing loop: an error a status query leaves in `ec` ends the collecting. -/
def collect (s : Bool × List FileName) (e : FolderEntry) : Bool × List FileName :=
  if s.1 then s else (e.kind = .broken, if isReport e then s.2 ++ [e.name] else s.2)

/-- `static_cast<int>` of a size. -/
def staticCastInt (size : Nat) : Int := (BitVec.ofNat 32 size).toInt

def prune (v : Volume) (f : Folder) : Folder :=
  let reports := ((v.listing f.entries).foldl collect (false, [])).2
  if staticCastInt reports.length ≤ kKeepReports then f
  else (excess kKeepReports reports).foldl (fsRemove v) f

def writeTest : FileName := codeUnits ".write-test"

def directoryIsWritable (v : Volume) (f : Folder) : Bool × Folder :=
  match fopenWrite v f writeTest with
  | none => (false, f)
  | some opened => (true, fsRemove v opened writeTest)

/-- The local time, the year in full and the month from 1. -/
structure Tm where
  year : Nat
  month : Nat
  day : Nat
  hour : Nat
  minute : Nat
  second : Nat

def digits (base width n : Nat) : FileName :=
  ((Nat.toDigits base n).map Char.toNat).leftpad width 0x30

/-- `%Y-%m-%d_%H%M%S` -/
def stamp (tm : Tm) : FileName :=
  digits 10 0 tm.year ++ 0x2D :: digits 10 2 tm.month ++ 0x2D :: digits 10 2 tm.day ++
    0x5F :: digits 10 2 tm.hour ++ digits 10 2 tm.minute ++ digits 10 2 tm.second

def reportName (tm : Tm) (id : UInt32) : FileName :=
  stamp tm ++ 0x2D :: digits 16 8 id.toNat ++ codeUnits ".txt"

inductive Place
  | preferred
  | fallback
deriving DecidableEq

abbrev Folders := Place → Folder

def openReport (volumes : Place → Volume) (folders : Folders) (place : Place) (name : FileName) :
    Option Place × Folders :=
  match fopenWrite (volumes place) (folders place) name with
  | none => (none, folders)
  | some opened => (some place, Function.update folders place (prune (volumes place) opened))

/-- `begin_session`: where a report was opened, and the folders it leaves. -/
def beginSession (active : Bool) (volumes : Place → Volume) (folders : Folders) (tm : Tm)
    (id : UInt32) : Option Place × Folders :=
  if active then (none, folders)
  else
    let preferred := directoryIsWritable (volumes .preferred) (folders .preferred)
    if preferred.1 then
      openReport volumes (Function.update folders .preferred preferred.2) .preferred (reportName tm id)
    else
      let fallback := directoryIsWritable (volumes .fallback) (folders .fallback)
      if fallback.1 then
        openReport volumes (Function.update folders .fallback fallback.2) .fallback (reportName tm id)
      else (none, folders)

/-- The reports of a folder: its regular `.txt` files. -/
def Folder.texts (f : Folder) : List FileName := (f.entries.filter isReport).map FolderEntry.name

/-- What a listing yields before an entry whose status query fails. -/
def reachable (listing : List FolderEntry) : List FolderEntry :=
  listing.takeWhile fun e => e.kind ≠ .broken

/-- The reports that pruning finds. -/
def seen (v : Volume) (f : Folder) : List FileName :=
  ((reachable (v.listing f.entries)).filter isReport).map FolderEntry.name

/-- The reports that pruning goes through: none where their number is read as too small. -/
def pruned (v : Volume) (f : Folder) : List FileName :=
  if staticCastInt (seen v f).length ≤ kKeepReports then [] else seen v f

/-- The folder once the report is open. -/
def withReport (v : Volume) (prior : Folder) (report : FileName) : Folder :=
  (directoryIsWritable v prior).2.opened report

variable {v : Volume} {f prior : Folder} {name report : FileName} {e : FolderEntry}

theorem collect_stopped (entries : List FolderEntry) (found : List FileName) :
    entries.foldl collect (true, found) = (true, found) := by
  induction entries with
  | nil => rfl
  | cons e entries ih => exact ih

theorem not_isReport_of_broken (broken : e.kind = .broken) : isReport e = false := by
  simp [isReport, broken]

theorem foldl_collect (entries : List FolderEntry) (found : List FileName) :
    (entries.foldl collect (false, found)).2 =
      found ++ ((reachable entries).filter isReport).map FolderEntry.name := by
  induction entries generalizing found with
  | nil => simp [reachable]
  | cons e entries ih =>
    rw [List.foldl_cons]
    by_cases broken : e.kind = .broken
    · have stop : collect (false, found) e = (true, found) := by
        simp [collect, broken, not_isReport_of_broken broken]
      have none : reachable (e :: entries) = [] := by simp [reachable, broken]
      rw [stop, collect_stopped, none]
      simp
    · have more : reachable (e :: entries) = e :: reachable entries := by simp [reachable, broken]
      have turn : collect (false, found) e =
          (false, if isReport e then found ++ [e.name] else found) := by
        simp [collect, broken]
      rw [turn, ih, more]
      by_cases text : isReport e = true
      · rw [if_pos text, List.filter_cons_of_pos text, List.map_cons, List.append_assoc]
        rfl
      · rw [if_neg text, List.filter_cons_of_neg text]

theorem foldl_fsRemove (gone : List FileName) (f : Folder) :
    (gone.foldl (fsRemove v) f).entries =
      f.entries.filter fun e => ¬(e.name ∈ gone ∧ v.removes e.name = true) := by
  induction gone generalizing f with
  | nil => simp
  | cons name gone ih =>
    rw [List.foldl_cons, ih]
    unfold fsRemove
    split
    next removes =>
      unfold Folder.removed
      rw [List.filter_filter]
      apply List.filter_congr
      intro e _
      rw [Bool.eq_iff_iff]
      simp only [Bool.and_eq_true, decide_eq_true_eq, List.mem_cons]
      constructor
      · rintro ⟨kept, other⟩ ⟨rfl | member, removable⟩
        · exact other rfl
        · exact kept ⟨member, removable⟩
      · intro kept
        refine ⟨fun both => kept ⟨Or.inr both.1, both.2⟩, ?_⟩
        rintro rfl
        exact kept ⟨Or.inl rfl, removes⟩
    next stays =>
      apply List.filter_congr
      intro e _
      rw [Bool.eq_iff_iff]
      simp only [decide_eq_true_eq, List.mem_cons]
      constructor
      · rintro kept ⟨rfl | member, removable⟩
        · exact stays removable
        · exact kept ⟨member, removable⟩
      · exact fun kept both => kept ⟨Or.inr both.1, both.2⟩

theorem prune_entries (v : Volume) (f : Folder) :
    (prune v f).entries = f.entries.filter fun e =>
      ¬(e.name ∈ excess kKeepReports (pruned v f) ∧ v.removes e.name = true) := by
  have found : ((v.listing f.entries).foldl collect (false, [])).2 = seen v f := foldl_collect _ _
  unfold prune pruned
  rw [found]
  dsimp only
  split
  next =>
    have none : excess kKeepReports ([] : List FileName) = [] := rfl
    simp [none]
  next => exact foldl_fsRemove _ f

theorem mem_prune_names : name ∈ (prune v f).names ↔
    name ∈ f.names ∧ ¬(name ∈ excess kKeepReports (pruned v f) ∧ v.removes name = true) := by
  unfold Folder.names
  rw [prune_entries]
  simp only [List.mem_map, List.mem_filter, decide_eq_true_eq]
  constructor
  · rintro ⟨e, ⟨member, stays⟩, rfl⟩
    exact ⟨⟨e, member, rfl⟩, stays⟩
  · rintro ⟨⟨e, member, rfl⟩, stays⟩
    exact ⟨e, ⟨member, stays⟩, rfl⟩

theorem prune_texts (v : Volume) (f : Folder) :
    (prune v f).texts = cleaned kKeepReports f.texts (pruned v f) v.removes := by
  unfold Folder.texts cleaned
  rw [prune_entries, List.filter_map, List.filter_filter, List.filter_filter]
  congr 1
  apply List.filter_congr
  intro e _
  rw [Bool.eq_iff_iff, Bool.and_eq_true, Bool.and_eq_true, and_comm]
  simp only [Function.comp_apply, decide_eq_true_eq]

theorem Folder.texts_nodup (f : Folder) : f.texts.Nodup :=
  f.distinct.sublist (List.filter_sublist.map _)

theorem Folder.mem_texts : name ∈ f.texts ↔ ∃ e ∈ f.entries, isReport e = true ∧ e.name = name := by
  unfold Folder.texts
  simp only [List.mem_map, List.mem_filter, and_assoc]

theorem Folder.eq_of_name {other : FolderEntry} (here : e ∈ f.entries) (there : other ∈ f.entries)
    (same : e.name = other.name) : e = other :=
  List.inj_on_of_nodup_map f.distinct here there same

theorem reachable_subperm (v : Volume) (f : Folder) :
    (reachable (v.listing f.entries)).Subperm f.entries :=
  (List.takeWhile_sublist _).subperm.trans (v.listing_subperm f.entries)

theorem seen_nodup (v : Volume) (f : Folder) : (seen v f).Nodup := by
  obtain ⟨entries, same, inside⟩ := reachable_subperm v f
  have distinct : (entries.map FolderEntry.name).Nodup := f.distinct.sublist (inside.map _)
  have found := (same.map FolderEntry.name).nodup_iff.mp distinct
  exact found.sublist (List.filter_sublist.map _)

theorem mem_seen : name ∈ seen v f ↔
    ∃ e ∈ reachable (v.listing f.entries), isReport e = true ∧ e.name = name := by
  unfold seen
  simp only [List.mem_map, List.mem_filter, and_assoc]

theorem seen_subset (v : Volume) (f : Folder) : seen v f ⊆ f.texts := by
  intro name member
  obtain ⟨e, found, text, rfl⟩ := mem_seen.mp member
  exact Folder.mem_texts.mpr ⟨e, (reachable_subperm v f).subset found, text, rfl⟩

theorem texts_subset_seen_iff : f.texts ⊆ seen v f ↔
    ∀ e ∈ f.entries, isReport e = true → e ∈ reachable (v.listing f.entries) := by
  constructor
  · intro all e member text
    have found := all (Folder.mem_texts.mpr ⟨e, member, text, rfl⟩)
    obtain ⟨other, listed, -, same⟩ := mem_seen.mp found
    rw [Folder.eq_of_name member ((reachable_subperm v f).subset listed) same.symm]
    exact listed
  · intro all name member
    obtain ⟨e, here, text, rfl⟩ := Folder.mem_texts.mp member
    exact mem_seen.mpr ⟨e, all e here text, text, rfl⟩

theorem pruned_nodup (v : Volume) (f : Folder) : (pruned v f).Nodup := by
  unfold pruned
  split
  next => exact List.nodup_nil
  next => exact seen_nodup v f

theorem pruned_subset (v : Volume) (f : Folder) : pruned v f ⊆ f.texts := by
  unfold pruned
  split
  next => exact List.nil_subset _
  next => exact seen_subset v f

theorem seen_perm (all : f.texts ⊆ seen v f) : (seen v f).Perm f.texts :=
  (List.perm_ext_iff_of_nodup (seen_nodup v f) f.texts_nodup).mpr fun _ =>
    ⟨fun member => seen_subset v f member, fun member => all member⟩

/-- Pruning goes through all the reports there are where the listing shows them all and their
number is not read as too small. -/
theorem texts_subset_pruned_iff (many : kKeepReports < f.texts.length) :
    f.texts ⊆ pruned v f ↔
      f.texts ⊆ seen v f ∧ (kKeepReports : Int) < staticCastInt f.texts.length := by
  unfold pruned
  split
  next small =>
    constructor
    · intro all
      have none : f.texts = [] := List.subset_nil.mp all
      rw [none] at many
      cases many
    · rintro ⟨all, large⟩
      rw [(seen_perm all).length_eq] at small
      omega
  next large =>
    refine ⟨fun all => ⟨all, ?_⟩, And.left⟩
    rw [← (seen_perm all).length_eq]
    omega

theorem extension_of_suffix (stem : FileName) (nonempty : stem ≠ []) :
    extension (stem ++ codeUnits ".txt") = codeUnits ".txt" := by
  have dotted : codeUnits ".txt" = 0x2E :: [0x74, 0x78, 0x74] := by decide
  have suffix : (stem ++ codeUnits ".txt").reverse.takeWhile (· ≠ 0x2E) = [0x74, 0x78, 0x74] := by
    rw [List.reverse_append, dotted]
    simp
  unfold extension
  rw [suffix, if_pos]
  · rfl
  · have := List.length_pos_of_ne_nil nonempty
    rw [dotted, List.length_append]
    simp
    omega

theorem reportName_extension (tm : Tm) (id : UInt32) :
    extension (reportName tm id) = codeUnits ".txt" :=
  extension_of_suffix _ (by simp)

theorem isReport_extension (text : isReport e = true) : extension e.name = codeUnits ".txt" := by
  unfold isReport at text
  rw [Bool.and_eq_true] at text
  simpa using text.2

theorem writeTest_extension : extension writeTest ≠ codeUnits ".txt" := by decide +kernel

theorem reportName_ne_writeTest (tm : Tm) (id : UInt32) : reportName tm id ≠ writeTest := by
  intro same
  exact writeTest_extension (same ▸ reportName_extension tm id)

theorem Folder.opened_names :
    (f.opened name).names = if name ∈ f.names then f.names else f.names ++ [name] :=
  openedEntries_names f.entries name

theorem Folder.mem_opened_names {other : FileName} :
    other ∈ (f.opened name).names ↔ other ∈ f.names ∨ other = name := by
  rw [Folder.opened_names]
  split
  next here =>
    constructor
    · exact Or.inl
    · rintro (there | rfl)
      · exact there
      · exact here
  next => simp

theorem Folder.mem_opened_of_ne (member : e ∈ f.entries) (other : e.name ≠ name) :
    e ∈ (f.opened name).entries := by
  unfold Folder.opened openedEntries
  dsimp only
  split
  next =>
    refine List.mem_map.mpr ⟨e, member, if_neg ?_⟩
    exact fun both => other both.1
  next => exact List.mem_append_left _ member

theorem Folder.mem_removed_names {other : FileName} :
    other ∈ (f.removed name).names ↔ other ∈ f.names ∧ other ≠ name := by
  unfold Folder.removed Folder.names
  simp only [List.mem_map, List.mem_filter, decide_eq_true_eq]
  constructor
  · rintro ⟨e, ⟨member, away⟩, rfl⟩
    exact ⟨⟨e, member, rfl⟩, away⟩
  · rintro ⟨⟨e, member, rfl⟩, away⟩
    exact ⟨e, ⟨member, away⟩, rfl⟩

theorem fopenWrite_some {opened : Folder} (success : fopenWrite v f name = some opened) :
    opened = f.opened name := by
  unfold fopenWrite at success
  split at success
  next => exact (Option.some.inj success).symm
  next => exact absurd success (by simp)

theorem directoryIsWritable_true (writable : (directoryIsWritable v f).1 = true) :
    (directoryIsWritable v f).2 = fsRemove v (f.opened writeTest) writeTest := by
  unfold directoryIsWritable at writable ⊢
  cases tried : fopenWrite v f writeTest with
  | none => simp [tried] at writable
  | some opened => rw [fopenWrite_some tried]

/-- What the probe leaves of the folder's names: all, but for a file of its own name. -/
theorem mem_probed_names (writable : (directoryIsWritable v prior).1 = true) :
    name ∈ (directoryIsWritable v prior).2.names ↔
      if name = writeTest then v.removes writeTest = false else name ∈ prior.names := by
  rw [directoryIsWritable_true writable]
  unfold fsRemove
  by_cases removes : v.removes writeTest = true
  · rw [if_pos removes, Folder.mem_removed_names, Folder.mem_opened_names]
    split
    next probe => simp [probe, removes]
    next other => simp [other]
  · rw [if_neg removes, Folder.mem_opened_names]
    split
    next probe => simp [probe, removes]
    next other => simp [other]

theorem mem_probed (writable : (directoryIsWritable v prior).1 = true) (member : e ∈ prior.entries)
    (other : e.name ≠ writeTest) : e ∈ (directoryIsWritable v prior).2.entries := by
  have opened := Folder.mem_opened_of_ne member other
  rw [directoryIsWritable_true writable]
  unfold fsRemove
  split
  next => exact List.mem_filter.mpr ⟨opened, by simpa using other⟩
  next => exact opened

end Rayman2Recomp
