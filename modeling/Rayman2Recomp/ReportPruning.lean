import Rayman2Recomp.ReportFolder

open Retention

namespace Rayman2Recomp

variable {v : Volume} {prior : Folder} {name report : FileName} {active : Bool}
  {volumes : Place → Volume} {folders : Folders} {tm : Tm} {id : UInt32} {place : Place}

/-- What is left after a report was opened: of the regular `.txt` files the greatest fifty, the new
report among them, and everything else there was. -/
structure KeepsNewest (volumes : Place → Volume) (folders : Folders) (place : Place)
    (report : FileName) (after : Folders) : Prop where
  newest : KeepsGreatest kKeepReports (withReport (volumes place) (folders place) report).texts
    (after place).texts
  others : ∀ e ∈ (folders place).entries, isReport e = false → e.name ∈ (after place).names
  elsewhere : ∀ other, other ≠ place → after other = folders other
  own : report ∈ (after place).names

/-- No file stands where the folder is probed, fewer than fifty reports are named as if they were
newer, and if there are more than fifty, their number is more than fifty as an `int` too, a listing
yields them all before it meets an entry without a status, and those that must go can be removed. -/
structure Prunable (v : Volume) (prior : Folder) (report : FileName) : Prop where
  unprobed : writeTest ∈ prior.names → v.removes writeTest = false
  young : report ∈ (withReport v prior report).texts →
    later (withReport v prior report).texts report < kKeepReports
  counted : kKeepReports < (withReport v prior report).texts.length →
    (kKeepReports : Int) < staticCastInt (withReport v prior report).texts.length
  listed : kKeepReports < (withReport v prior report).texts.length →
    ∀ e ∈ (withReport v prior report).entries, isReport e = true →
      e ∈ reachable (v.listing (withReport v prior report).entries)
  removable : ∀ name ∈ (withReport v prior report).texts,
    kKeepReports ≤ later (withReport v prior report).texts name → v.removes name = true

theorem openReport_some {here : Place}
    (opened : (openReport volumes folders place name).1 = some here) :
    here = place ∧ (openReport volumes folders place name).2 =
      Function.update folders place (prune (volumes place) ((folders place).opened name)) := by
  unfold openReport at opened ⊢
  cases tried : fopenWrite (volumes place) (folders place) name with
  | none => simp [tried] at opened
  | some f =>
    rw [tried] at opened
    rw [fopenWrite_some tried]
    exact ⟨(Option.some.inj opened).symm, rfl⟩

theorem openReport_probed {f : Folder} {here : Place}
    (opened : (openReport volumes (Function.update folders place f) place name).1 = some here) :
    here = place ∧ (openReport volumes (Function.update folders place f) place name).2 =
      Function.update folders place (prune (volumes place) (f.opened name)) := by
  obtain ⟨same, after⟩ := openReport_some opened
  refine ⟨same, ?_⟩
  rw [after, Function.update_self, Function.update_idem]

theorem beginSession_opened (opened : (beginSession active volumes folders tm id).1 = some place) :
    (directoryIsWritable (volumes place) (folders place)).1 = true ∧
      (beginSession active volumes folders tm id).2 = Function.update folders place
        (prune (volumes place) (withReport (volumes place) (folders place) (reportName tm id))) := by
  unfold beginSession at opened ⊢
  cases active with
  | true => simp at opened
  | false =>
    simp only [Bool.false_eq_true, if_false] at opened ⊢
    by_cases preferred : (directoryIsWritable (volumes .preferred) (folders .preferred)).1 = true
    · rw [if_pos preferred] at opened ⊢
      obtain ⟨rfl, after⟩ := openReport_probed opened
      exact ⟨preferred, after⟩
    · rw [if_neg preferred] at opened ⊢
      by_cases fallback : (directoryIsWritable (volumes .fallback) (folders .fallback)).1 = true
      · rw [if_pos fallback] at opened ⊢
        obtain ⟨rfl, after⟩ := openReport_probed opened
        exact ⟨fallback, after⟩
      · rw [if_neg fallback] at opened
        exact absurd opened (by simp)

theorem report_present (v : Volume) (prior : Folder) (report : FileName) :
    report ∈ (withReport v prior report).names :=
  Folder.mem_opened_names.mpr (Or.inr rfl)

/-- Which reports are kept, by the library's rule for a cleaning that sees and removes what it can. -/
theorem prune_keeps_iff (v : Volume) (f : Folder) :
    KeepsGreatest kKeepReports f.texts (prune v f).texts ↔
      (kKeepReports < f.texts.length →
        (∀ e ∈ f.entries, isReport e = true → e ∈ reachable (v.listing f.entries)) ∧
          (kKeepReports : Int) < staticCastInt f.texts.length) ∧
      ∀ name ∈ f.texts, kKeepReports ≤ later f.texts name → v.removes name = true := by
  rw [prune_texts, keepsGreatest_cleaned_iff f.texts_nodup (pruned_nodup v f) (pruned_subset v f)]
  refine and_congr_left fun _ => forall_congr' fun many => ?_
  rw [texts_subset_pruned_iff many, texts_subset_seen_iff]

theorem pruned_perm {f : Folder} (all : f.texts ⊆ pruned v f) : (pruned v f).Perm f.texts :=
  (List.perm_ext_iff_of_nodup (pruned_nodup v f) f.texts_nodup).mpr fun _ =>
    ⟨fun member => pruned_subset v f member, fun member => all member⟩

/-- When pruning keeps the greatest, it removes what has fifty reports after it and nothing else. -/
theorem mem_prune_of_keeps {f : Folder}
    (keeps : KeepsGreatest kKeepReports f.texts (prune v f).texts) :
    name ∈ (prune v f).names ↔
      name ∈ f.names ∧ ¬(name ∈ f.texts ∧ kKeepReports ≤ later f.texts name) := by
  rw [mem_prune_names]
  refine and_congr_right fun _ => not_congr ?_
  obtain ⟨listed, removable⟩ := (prune_keeps_iff v f).mp keeps
  have same : kKeepReports < f.texts.length → (pruned v f).Perm f.texts := fun many => by
    obtain ⟨all, large⟩ := listed many
    exact pruned_perm ((texts_subset_pruned_iff many).mpr ⟨texts_subset_seen_iff.mpr all, large⟩)
  rw [mem_excess_iff (pruned_nodup v f)]
  constructor
  · rintro ⟨⟨found, old⟩, -⟩
    have many := later_lt_length found
    have fits := (List.subperm_of_subset (pruned_nodup v f) (pruned_subset v f)).length_le
    exact ⟨pruned_subset v f found, by rwa [← later_perm (same (by omega))]⟩
  · rintro ⟨text, old⟩
    have many := later_lt_length text
    have perm := same (by omega)
    exact ⟨⟨perm.mem_iff.mpr text, by rwa [later_perm perm]⟩, removable name text old⟩

/-- An entry that is no report survives when the probe does not take it. -/
theorem other_survives (writable : (directoryIsWritable v prior).1 = true)
    (keeps : KeepsGreatest kKeepReports (withReport v prior report).texts
      (prune v (withReport v prior report)).texts)
    (own : report ∈ (prune v (withReport v prior report)).names)
    (unprobed : writeTest ∈ prior.names → v.removes writeTest = false) {e : FolderEntry}
    (member : e ∈ prior.entries) (other : isReport e = false) :
    e.name ∈ (prune v (withReport v prior report)).names := by
  by_cases itself : e.name = report
  · exact itself ▸ own
  have known : e.name ∈ prior.names := List.mem_map_of_mem member
  rw [mem_prune_of_keeps keeps]
  by_cases probe : e.name = writeTest
  · rw [probe] at known
    constructor
    · refine Folder.mem_opened_names.mpr (Or.inl ((mem_probed_names writable).mpr ?_))
      rw [if_pos probe]
      exact unprobed known
    · rintro ⟨text, -⟩
      obtain ⟨entry, -, isText, same⟩ := Folder.mem_texts.mp text
      apply writeTest_extension
      rw [← probe, ← same]
      exact isReport_extension isText
  · have here : e ∈ (withReport v prior report).entries :=
      Folder.mem_opened_of_ne (mem_probed writable member probe) itself
    refine ⟨List.mem_map_of_mem here, ?_⟩
    rintro ⟨text, -⟩
    obtain ⟨entry, there, isText, same⟩ := Folder.mem_texts.mp text
    rw [Folder.eq_of_name there here same, other] at isText
    exact absurd isText (by decide)

theorem probe_gone (writable : (directoryIsWritable v prior).1 = true) (other : report ≠ writeTest)
    (removes : v.removes writeTest = true) :
    writeTest ∉ (prune v (withReport v prior report)).names := by
  intro survives
  have here := (mem_prune_names.mp survives).1
  rcases Folder.mem_opened_names.mp here with probed | same
  · rw [mem_probed_names writable, if_pos rfl, removes] at probed
    exact absurd probed (by decide)
  · exact other same.symm

/-- A session keeps the newest reports, its own among them, exactly when its folder is prunable. -/
theorem beginSession_keeps_newest_iff
    (opened : (beginSession active volumes folders tm id).1 = some place) :
    KeepsNewest volumes folders place (reportName tm id) (beginSession active volumes folders tm id).2
      ↔ Prunable (volumes place) (folders place) (reportName tm id) := by
  obtain ⟨writable, after⟩ := beginSession_opened opened
  have here : (beginSession active volumes folders tm id).2 place =
      prune (volumes place) (withReport (volumes place) (folders place) (reportName tm id)) := by
    rw [after, Function.update_self]
  constructor
  · rintro ⟨newest, others, -, own⟩
    rw [here] at newest others own
    obtain ⟨listed, removable⟩ := (prune_keeps_iff _ _).mp newest
    refine ⟨?_, ?_, fun many => (listed many).2, fun many => (listed many).1, removable⟩
    · intro known
      obtain ⟨e, member, same⟩ := List.mem_map.mp known
      have other : isReport e = false := by
        by_contra text
        rw [Bool.not_eq_false] at text
        exact writeTest_extension (same ▸ isReport_extension text)
      have survives := others e member other
      rw [same] at survives
      by_contra removes
      rw [Bool.not_eq_false] at removes
      exact probe_gone writable (reportName_ne_writeTest tm id) removes survives
    · intro text
      by_contra old
      exact ((mem_prune_of_keeps newest).mp own).2 ⟨text, not_lt.mp old⟩
  · rintro ⟨unprobed, young, counted, listed, removable⟩
    have newest := (prune_keeps_iff (volumes place)
      (withReport (volumes place) (folders place) (reportName tm id))).mpr
      ⟨fun many => ⟨listed many, counted many⟩, removable⟩
    have own : reportName tm id ∈ (prune (volumes place)
        (withReport (volumes place) (folders place) (reportName tm id))).names := by
      refine (mem_prune_of_keeps newest).mpr ⟨report_present _ _ _, ?_⟩
      rintro ⟨text, old⟩
      exact absurd (young text) (not_lt.mpr old)
    constructor
    · rw [here]
      exact newest
    · intro e member other
      rw [here]
      exact other_survives writable newest own unprobed member other
    · intro other different
      rw [after, Function.update_of_ne different]
    · rw [here]
      exact own

/-- A volume on which everything succeeds. -/
def plainVolume : Volume where
  opens _ := true
  removes _ := true
  listing entries := entries
  listing_subperm entries := List.Subperm.refl entries

theorem twoDigits_injective : ∀ a < 50, ∀ b < 50, digits 10 2 a = digits 10 2 b → a = b := by
  decide +kernel

/-- Fifty reports of a year the clock has been set back from. -/
def laterReports : Folder where
  entries := (List.range 50).map fun second => ⟨reportName ⟨2027, 1, 1, 0, 0, second⟩ 0, .regular⟩
  distinct := by
    rw [List.map_map]
    refine List.Nodup.map_on (fun a ha b hb same => ?_) List.nodup_range
    have stamps := List.append_cancel_right (List.append_cancel_right same)
    exact twoDigits_injective a (List.mem_range.mp ha) b (List.mem_range.mp hb)
      (List.append_cancel_left stamps)

def newYear (year : Nat) : Tm := ⟨year, 1, 1, 0, 0, 0⟩

/-- A year on, the first of the fifty makes room. -/
theorem next_year_keeps_newest :
    KeepsNewest (fun _ => plainVolume) (fun _ => laterReports) .preferred (reportName (newYear 2028) 0)
      (beginSession false (fun _ => plainVolume) (fun _ => laterReports) (newYear 2028) 0).2 := by
  refine (beginSession_keeps_newest_iff (by decide +kernel)).mpr ⟨?_, ?_, ?_, ?_, ?_⟩
  · decide +kernel
  · decide +kernel
  · decide +kernel
  · intro _ e here _
    have whole : reachable (plainVolume.listing
        (withReport plainVolume laterReports (reportName (newYear 2028) 0)).entries) =
        (withReport plainVolume laterReports (reportName (newYear 2028) 0)).entries := by
      decide +kernel
    rw [whole]
    exact here
  · intro name _ _
    rfl

/-- The fifty-first report is removed while it is being written. -/
theorem clock_set_back_loses_report :
    ¬KeepsNewest (fun _ => plainVolume) (fun _ => laterReports) .preferred
      (reportName (newYear 2026) 0)
      (beginSession false (fun _ => plainVolume) (fun _ => laterReports) (newYear 2026) 0).2 := by
  intro keeps
  have opened : (beginSession false (fun _ => plainVolume) (fun _ => laterReports)
      (newYear 2026) 0).1 = some .preferred := by decide +kernel
  have text : reportName (newYear 2026) 0 ∈
      (withReport plainVolume laterReports (reportName (newYear 2026) 0)).texts := by
    decide +kernel
  have old : kKeepReports ≤ later
      (withReport plainVolume laterReports (reportName (newYear 2026) 0)).texts
      (reportName (newYear 2026) 0) := by decide +kernel
  have here : (beginSession false (fun _ => plainVolume) (fun _ => laterReports)
      (newYear 2026) 0).2 .preferred =
      prune plainVolume (withReport plainVolume laterReports (reportName (newYear 2026) 0)) := by
    rw [(beginSession_opened opened).2, Function.update_self]
  have newest := keeps.newest
  have own := keeps.own
  rw [here] at newest own
  exact ((mem_prune_of_keeps newest).mp own).2 ⟨text, old⟩

end Rayman2Recomp
