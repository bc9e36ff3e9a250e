import Rayman2Recomp.DebugReport
import Rayman2Recomp.Segments
import Mathlib.Data.List.DropRight
import Mathlib.Data.List.Forall2

open Disk Runs Segments

namespace Rayman2Recomp

def newline : UInt8 := 0x0A

def findNewline (text : Bytes) (start : Nat) : Option Nat :=
  ((text.drop start).findIdx? (· == newline)).map (start + ·)

def stripLine (line : Bytes) : Bytes := line.rdropWhile fun c => c == 0x0D || c == 0x20

theorem findNewline_some {text segment rest : Bytes} {start : Nat}
    (split : text.drop start = segment ++ newline :: rest) (fresh : newline ∉ segment) :
    findNewline text start = some (start + segment.length) := by
  have none_before : segment.findIdx? (· == newline) = none := by
    rw [List.findIdx?_eq_none_iff]
    intro c mem
    exact beq_eq_false_iff_ne.mpr fun same => fresh (same ▸ mem)
  rw [findNewline, split, List.findIdx?_append, none_before]
  simp [List.findIdx?_cons]

theorem findNewline_none {text : Bytes} {start : Nat} (fresh : newline ∉ text.drop start) :
    findNewline text start = none := by
  rw [findNewline, Option.map_eq_none_iff, List.findIdx?_eq_none_iff]
  intro c mem
  exact beq_eq_false_iff_ne.mpr fun same => fresh (same ▸ mem)

theorem findNewline_bounds {text : Bytes} {start nl : Nat} (found : findNewline text start = some nl) :
    start ≤ nl ∧ nl < text.length := by
  obtain ⟨index, here, rfl⟩ := Option.map_eq_some_iff.mp found
  have bound := (List.findIdx?_eq_some_iff_getElem.mp here).1
  rw [List.length_drop] at bound
  omega

/-- The inner loop of the pump: the lines it passes on, and where it stops. -/
def drainLines (text : Bytes) (start : Nat) : List Bytes × Nat :=
  match found : findNewline text start with
  | none => ([], start)
  | some nl =>
    let line := stripLine ((text.drop start).take (nl - start))
    let later := drainLines text (nl + 1)
    (if line.isEmpty then later.1 else line :: later.1, later.2)
termination_by text.length - start
decreasing_by
  have bounds := findNewline_bounds found
  omega

/-- `partial`, and what was given to `write_line` so far: a level and a text. -/
structure Pump where
  carry : Bytes
  written : List (Level × Bytes)

def Pump.start : Pump := ⟨[], []⟩

/-- The level and the text, up to its first NUL. -/
def mirrored (line : Bytes) : Level × Bytes := (classify line, cString line)

def pumpRead (s : Pump) (read : Bytes) : Pump :=
  let text := s.carry ++ read
  let drained := drainLines text 0
  let carry := text.drop drained.2
  let written := s.written ++ drained.1.map mirrored
  if carry.length > 64 * 1024 then ⟨[], written ++ [mirrored carry]⟩ else ⟨carry, written⟩

/-- All of the pump: it ends with the first read that brings nothing. -/
def pumpThread (reads : List Bytes) : List (Level × Bytes) :=
  let s := run pumpRead .start (reads.takeWhile fun read => !read.isEmpty)
  if s.carry.isEmpty then s.written else s.written ++ [mirrored s.carry]

def strippedLines (segments : List Bytes) : List Bytes :=
  (segments.map stripLine).filter fun line => !line.isEmpty

/-- The lines of a whole stream: its segments, and then the remainder as it is. -/
def streamLines (stream : Bytes) : List Bytes :=
  strippedLines (complete newline stream) ++
    if (remainder newline stream).isEmpty then [] else [remainder newline stream]

/-- The line of a segment: without the CR and space characters it ends with. -/
structure LineOf (segment line : Bytes) : Prop where
  cut : ∃ blanks, segment = line ++ blanks ∧ ∀ c ∈ blanks, c = 0x0D ∨ c = 0x20
  ends : ∀ some : line ≠ [], line.getLast some ≠ 0x0D ∧ line.getLast some ≠ 0x20

/-- The lines of a stream: one of each segment, unless it is empty, and then the remainder as it is,
unless it is empty. -/
def IsLinesOf (stream : Bytes) (lines : List Bytes) : Prop :=
  ∃ stripped, List.Forall₂ LineOf (complete newline stream) stripped ∧
    lines = (stripped.filter fun line => !line.isEmpty) ++
      if (remainder newline stream).isEmpty then [] else [remainder newline stream]

/-- No stretch without a newline is longer than the pump can carry. -/
def ShortStretches (stream : Bytes) : Prop :=
  ∀ stretch, stretch <:+: stream → newline ∉ stretch → stretch.length ≤ 64 * 1024

theorem stripLine_lineOf (segment : Bytes) : LineOf segment (stripLine segment) := by
  refine ⟨⟨segment.rtakeWhile fun c => c == 0x0D || c == 0x20,
    List.rdropWhile_append_rtakeWhile.symm, fun c mem => ?_⟩, fun some => ?_⟩
  · simpa using List.mem_rtakeWhile_imp mem
  · have stops := List.rdropWhile_last_not _ _ some
    simpa [stripLine] using stops

/-- There is one line of a segment only. -/
theorem LineOf.unique {segment line : Bytes} (h : LineOf segment line) :
    line = stripLine segment := by
  obtain ⟨⟨blanks, rfl, blank⟩, ends⟩ := h
  rw [stripLine]
  induction blanks using List.reverseRecOn with
  | nil =>
    rw [List.append_nil, eq_comm, List.rdropWhile_eq_self_iff]
    intro some
    simpa using ends some
  | append_singleton blanks c ih =>
    have here := blank c (List.mem_append_right blanks List.mem_cons_self)
    rw [← List.append_assoc, List.rdropWhile_concat_pos _ _ _ (by simpa using here)]
    exact ih fun d mem => blank d (List.mem_append_left [c] mem)

theorem forall₂_lineOf_iff {segments lines : List Bytes} :
    List.Forall₂ LineOf segments lines ↔ lines = segments.map stripLine := by
  constructor
  · intro each
    induction each with
    | nil => rfl
    | cons first _ ih => rw [List.map_cons, first.unique, ih]
  · rintro rfl
    exact List.forall₂_map_right_iff.mpr (List.forall₂_same.mpr fun segment _ =>
      stripLine_lineOf segment)

theorem isLinesOf_iff {stream : Bytes} {lines : List Bytes} :
    IsLinesOf stream lines ↔ lines = streamLines stream := by
  constructor
  · rintro ⟨stripped, each, rfl⟩
    rw [forall₂_lineOf_iff.mp each]
    rfl
  · rintro rfl
    exact ⟨_, forall₂_lineOf_iff.mpr rfl, rfl⟩

theorem strippedLines_append (before after : List Bytes) :
    strippedLines (before ++ after) = strippedLines before ++ strippedLines after := by
  rw [strippedLines, List.map_append, List.filter_append]
  rfl

theorem drainLines_none {text : Bytes} {start : Nat} (fresh : newline ∉ text.drop start) :
    drainLines text start = ([], start) := by
  unfold drainLines
  split
  next => rfl
  next nl found =>
    rw [findNewline_none fresh] at found
    cases found

theorem drainLines_some {text segment rest : Bytes} {start : Nat}
    (split : text.drop start = segment ++ newline :: rest) (fresh : newline ∉ segment) :
    drainLines text start =
      (strippedLines [segment] ++ (drainLines text (start + segment.length + 1)).1,
        (drainLines text (start + segment.length + 1)).2) := by
  have here := findNewline_some split fresh
  have line : (text.drop start).take (start + segment.length - start) = segment := by
    rw [split, Nat.add_sub_cancel_left, List.take_left]
  rw [drainLines]
  split
  next found =>
    rw [here] at found
    cases found
  next nl found =>
    rw [here] at found
    cases found
    rw [line]
    cases empty : (stripLine segment).isEmpty <;> simp [strippedLines, empty]

theorem drainLines_spec (text : Bytes) (start : Nat) :
    (drainLines text start).1 = strippedLines (complete newline (text.drop start)) ∧
      text.drop (drainLines text start).2 = remainder newline (text.drop start) := by
  by_cases mem : newline ∈ text.drop start
  · obtain ⟨segment, rest, split, fresh⟩ := List.eq_append_cons_of_mem mem
    have behind : text.drop (start + segment.length + 1) = rest := by
      rw [Nat.add_assoc, ← List.drop_drop, split, ← List.drop_drop, List.drop_left]
      rfl
    have shorter : start + segment.length < text.length := by
      have length := congrArg List.length split
      rw [List.length_drop, List.length_append, List.length_cons] at length
      omega
    obtain ⟨lines, stop⟩ := drainLines_spec text (start + segment.length + 1)
    rw [drainLines_some split fresh, split, complete_first fresh, remainder_sep]
    rw [behind] at lines stop
    refine ⟨?_, stop⟩
    rw [lines]
    exact (strippedLines_append [segment] _).symm
  · rw [drainLines_none mem, complete_of_not_mem mem, remainder_of_not_mem mem]
    exact ⟨rfl, rfl⟩
termination_by text.length - start

section Runs

structure PumpHeld (text : Bytes) (s : Pump) : Prop where
  carry : s.carry = remainder newline text
  written : s.written = (strippedLines (complete newline text)).map mirrored

theorem pumpRead_carry (s : Pump) (read : Bytes) : (pumpRead s read).carry.length ≤ 64 * 1024 := by
  unfold pumpRead
  dsimp only
  split
  next => simp
  next short => exact Nat.le_of_not_lt short

theorem pumpHeld_read {text read : Bytes} {s : Pump} (held : PumpHeld text s)
    (short : ShortStretches (text ++ read)) : PumpHeld (text ++ read) (pumpRead s read) := by
  obtain ⟨carry, written⟩ := held
  obtain ⟨lines, stop⟩ := drainLines_spec (s.carry ++ read) 0
  rw [List.drop_zero, carry] at lines stop
  rw [← remainder_append] at stop
  have fits : (remainder newline (text ++ read)).length ≤ 64 * 1024 :=
    short _ (remainder_suffix newline _).isInfix (remainder_not_mem newline _)
  unfold pumpRead
  dsimp only
  rw [carry, stop, lines, written, if_neg (by omega)]
  refine ⟨rfl, ?_⟩
  rw [complete_append newline text read, strippedLines_append, List.map_append]

theorem pumpHeld_run {reads : List Bytes} (short : ShortStretches reads.flatten) :
    PumpHeld reads.flatten (run pumpRead .start reads) := by
  induction reads using List.reverseRecOn with
  | nil =>
    have none_there : newline ∉ ([] : Bytes) := List.not_mem_nil
    exact ⟨(remainder_of_not_mem none_there).symm, by
      rw [List.flatten_nil, complete_of_not_mem none_there]
      rfl⟩
  | append_singleton before read ih =>
    have flat : (before ++ [read]).flatten = before.flatten ++ read := by simp
    rw [flat] at short ⊢
    have earlier : ShortStretches before.flatten := fun stretch inside =>
      short stretch (inside.trans (List.prefix_append _ _).isInfix)
    rw [run_snoc]
    exact pumpHeld_read (ih earlier) short

theorem stripLine_subset (line : Bytes) : ∀ c ∈ stripLine line, c ∈ line := fun _ mem =>
  (List.rdropWhile_prefix _ (l := line)).subset mem

theorem streamLines_no_nul {stream : Bytes} (no_nul : 0 ∉ stream) :
    ∀ line ∈ streamLines stream, 0 ∉ line := by
  intro line mem nul
  rcases List.mem_append.mp mem with segments | last
  · obtain ⟨stripped, _⟩ := List.mem_filter.mp segments
    obtain ⟨segment, whole, rfl⟩ := List.mem_map.mp stripped
    have inside := stripLine_subset segment 0 nul
    exact no_nul (mem_of_mem_splitOn (List.mem_of_mem_dropLast whole) inside)
  · split at last
    next => cases last
    next =>
      rw [List.mem_singleton.mp last] at nul
      exact no_nul ((remainder_suffix newline stream).subset nul)

theorem mirrored_no_nul {line : Bytes} (no_nul : 0 ∉ line) : mirrored line = (classify line, line) := by
  have text : cString line = line := by
    rw [cString, List.takeWhile_eq_self_iff]
    intro c mem
    simpa using fun zero : c = 0 => no_nul (zero ▸ mem)
  rw [mirrored, text]

theorem pumpThread_eq {reads : List Bytes} (sizes : ∀ read ∈ reads, 1 ≤ read.length)
    (short : ShortStretches reads.flatten) :
    pumpThread reads = (streamLines reads.flatten).map mirrored := by
  have all : reads.takeWhile (fun read => !read.isEmpty) = reads := by
    rw [List.takeWhile_eq_self_iff]
    intro read mem
    have size := sizes read mem
    cases read with
    | nil => simp at size
    | cons c rest => rfl
  obtain ⟨carry, written⟩ := pumpHeld_run short
  unfold pumpThread streamLines
  dsimp only
  rw [all, carry, written]
  cases (remainder newline reads.flatten).isEmpty <;> simp

/-- Between reads the pump carries at most 65536 bytes, and a stream without
longer stretches gives the same lines however it is read. -/
theorem pump_lines (reads : List Bytes)
    (sizes : ∀ read ∈ reads, 1 ≤ read.length ∧ read.length ≤ 4096) (no_nul : 0 ∉ reads.flatten) :
    (∀ before, before <+: reads → (run pumpRead .start before).carry.length ≤ 65536) ∧
    (ShortStretches reads.flatten →
      ∃ lines, (∀ other, IsLinesOf reads.flatten other ↔ other = lines) ∧
        pumpThread reads = lines.map fun line => (classify line, line)) := by
  refine ⟨fun before _ => ?_, fun short => ?_⟩
  · induction before using List.reverseRecOn with
    | nil => simp [Pump.start]
    | append_singleton earlier read _ =>
      rw [run_snoc]
      exact pumpRead_carry _ read
  · refine ⟨streamLines reads.flatten, fun other => isLinesOf_iff, ?_⟩
    rw [pumpThread_eq (fun read mem => (sizes read mem).1) short]
    exact List.map_congr_left fun line mem => mirrored_no_nul (streamLines_no_nul no_nul line mem)

/-- A read that ends between CR and LF. -/
theorem pump_lines_crlf :
    pumpThread [ascii "ab\r", ascii "\ncd"] = [(.log, ascii "ab"), (.log, ascii "cd")] := by
  have short : ShortStretches [ascii "ab\r", ascii "\ncd"].flatten := by
    intro stretch inside _
    have fits : [ascii "ab\r", ascii "\ncd"].flatten.length ≤ 64 * 1024 := by decide
    exact inside.length_le.trans fits
  obtain ⟨lines, only, written⟩ :=
    (pump_lines [ascii "ab\r", ascii "\ncd"] (by decide) (by decide)).2 short
  have known : [ascii "ab", ascii "cd"] = lines :=
    (only _).mp (isLinesOf_iff.mpr (by decide +kernel))
  rw [written, ← known]
  decide +kernel

end Runs

end Rayman2Recomp
