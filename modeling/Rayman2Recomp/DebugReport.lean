import Rayman2Recomp.Disk

open Disk

namespace Rayman2Recomp

def ascii (s : String) : Bytes := s.toList.map fun c => UInt8.ofNat c.toNat

/-- What `%s` prints of a string. -/
def cString (s : Bytes) : Bytes := s.takeWhile (· ≠ 0)

/-- `char text[2048]`, as `vsnprintf` fills it. -/
def formatted (message : Bytes) : Bytes := message.take 2047

inductive Level
  | info
  | warn
  | error
  | log
  | crash
deriving DecidableEq

def isUpper (c : UInt8) : Bool := 0x41 ≤ c && c ≤ 0x5A

def toLower (c : UInt8) : UInt8 := if isUpper c then c + 0x20 else c

def isAlpha (c : UInt8) : Bool := isUpper c || (0x61 ≤ c && c ≤ 0x7A)

def find (s word : Bytes) (start : Nat) : Option Nat :=
  (List.range' start (s.length + 1 - start)).find? fun pos => (s.drop pos).take word.length = word

def wholeWord (s : Bytes) (pos length : Nat) : Bool :=
  let left := pos == 0 || !(s[pos - 1]?.any isAlpha)
  let right := !(s[pos + length]?.any isAlpha)
  left && right

/-- The loop of `contains_word`. Each turn starts further on, so there are at
most as many as the line has characters, and one. -/
def containsWordFrom (s word : Bytes) : Nat → Option Nat → Bool
  | _, none => false
  | 0, some _ => false
  | turns + 1, some pos =>
    if wholeWord s pos word.length then true
    else containsWordFrom s word turns (find s word (pos + 1))

def containsWord (s word : Bytes) : Bool := containsWordFrom s word (s.length + 1) (find s word 0)

def failures : List Bytes :=
  ["error", "failed", "failure", "fatal", "exception", "assert", "cannot", "unable"].map ascii

def cautions : List Bytes := ["warning", "warn"].map ascii

def classify (line : Bytes) : Level :=
  let lower := line.map toLower
  if failures.any (containsWord lower) then .error
  else if cautions.any (containsWord lower) then .warn
  else .log

/-- What the report file is made of. Times are left out. -/
inductive Entry
  | eventsHeading
  | event (level : Level) (category text : Bytes)
  | context (key value : Bytes)
  | kind (kind : Bytes)
  | crashText (text : Bytes)
  | crashAdvice
  | summary (errors warnings crashes : Int) (clean nothingWrong : Bool)
deriving DecidableEq

def beginMark : Bytes := ascii "================ BEGIN CRASH REPORT ================"

def endMark : Bytes := ascii "================= END CRASH REPORT ================="

/-- The globals of `debug_report.cpp` under `g_mutex`, the counters by how often
they were incremented, and the owner of `g_crash_mutex`. Each entry of the file
keeps the thread that wrote it. -/
structure Report (ι : Type) where
  isOpen : Bool
  headerOpen : Bool
  lines : List (ι × Entry)
  errors : Nat
  warnings : Nat
  crashes : Nat
  ending : Bool
  crashOwner : Option ι

variable {ι : Type}

/-- `begin_session` leaves no file open where neither directory is writable. -/
def Report.begun (opened : Bool) : Report ι := ⟨opened, true, [], 0, 0, 0, false, none⟩

/-- An `atomic<int>` after that many increments, as `%d` prints it. -/
def counterValue (increments : Nat) : Int := (BitVec.ofNat 32 increments).toInt

def Report.append (r : Report ι) (t : ι) (entries : List Entry) : Report ι :=
  { r with lines := r.lines ++ entries.map fun entry => (t, entry) }

def writeLine (r : Report ι) (t : ι) (level : Level) (category text : Bytes) : Report ι :=
  if !r.isOpen then r
  else
    let r := if r.headerOpen then { r.append t [.eventsHeading] with headerOpen := false } else r
    r.append t [.event level category text]

def countError (r : Report ι) : Report ι := { r with errors := r.errors + 1 }

def countWarning (r : Report ι) : Report ι := { r with warnings := r.warnings + 1 }

def countCrash (r : Report ι) : Report ι := { r with crashes := r.crashes + 1 }

/-- The counter `classify` bumps as it returns a level. -/
def countClassified (r : Report ι) : Level → Report ι
  | .error => countError r
  | .warn => countWarning r
  | _ => r

def writeMirrored (r : Report ι) (t : ι) (line : Bytes) : Report ι :=
  writeLine (countClassified r (classify line)) t (classify line) (ascii "out") (cString line)

def addContext (r : Report ι) (t : ι) (key value : Bytes) : Report ι :=
  if !r.isOpen then r
  else if r.headerOpen then r.append t [.context (cString key) (cString value)]
  else writeLine r t .info (cString key) (cString value)

def openCrash (r : Report ι) (t : ι) (kind : Bytes) : Report ι :=
  if !r.isOpen then r
  else (writeLine r t .crash (ascii "crash") beginMark).append t [.kind kind]

def crashLine (r : Report ι) (t : ι) (text : Bytes) : Report ι :=
  if !r.isOpen then r else r.append t [.crashText (formatted text)]

def closeCrash (r : Report ι) (t : ι) : Report ι :=
  if !r.isOpen then r
  else writeLine (r.append t [.crashAdvice]) t .crash (ascii "crash") endMark

def closeReport (r : Report ι) (t : ι) (clean : Bool) : Report ι :=
  if !r.isOpen then r
  else
    let errors := counterValue r.errors
    let warnings := counterValue r.warnings
    let crashes := counterValue r.crashes
    { r.append t [.summary errors warnings crashes clean (errors == 0 && crashes == 0)] with
      isOpen := false }

def lineEntries (headerOpen : Bool) (level : Level) (category text : Bytes) : List Entry :=
  (if headerOpen then [.eventsHeading] else []) ++ [.event level category text]

/-- A section writes these entries and leaves the counters and the crash mutex
alone. -/
structure Wrote (r r' : Report ι) (t : ι) (entries : List Entry) : Prop where
  lines : r'.lines = r.lines ++ entries.map fun entry => (t, entry)
  owner : r'.crashOwner = r.crashOwner
  errors : r'.errors = r.errors
  warnings : r'.warnings = r.warnings
  crashes : r'.crashes = r.crashes

theorem wrote_nothing (r : Report ι) (t : ι) : Wrote r r t [] :=
  ⟨(List.append_nil r.lines).symm, rfl, rfl, rfl, rfl⟩

theorem wrote_append (r : Report ι) (t : ι) (entries : List Entry) :
    Wrote r (r.append t entries) t entries := ⟨rfl, rfl, rfl, rfl, rfl⟩

theorem Wrote.trans {r r' r'' : Report ι} {t : ι} {before after : List Entry}
    (first : Wrote r r' t before) (second : Wrote r' r'' t after) :
    Wrote r r'' t (before ++ after) := by
  refine ⟨?_, second.owner.trans first.owner, second.errors.trans first.errors,
    second.warnings.trans first.warnings, second.crashes.trans first.crashes⟩
  rw [second.lines, first.lines, List.append_assoc, List.map_append]

theorem writeLine_open {r : Report ι} (h : r.isOpen) (t : ι) (level : Level)
    (category text : Bytes) :
    writeLine r t level category text =
      { r.append t (lineEntries r.headerOpen level category text) with headerOpen := false } := by
  unfold writeLine lineEntries Report.append
  cases header : r.headerOpen <;> simp [h, header]

theorem writeLine_closed {r : Report ι} (h : r.isOpen = false) (t : ι) (level : Level)
    (category text : Bytes) : writeLine r t level category text = r := by
  simp [writeLine, h]

theorem writeLine_wrote (r : Report ι) (t : ι) (level : Level) (category text : Bytes) :
    Wrote r (writeLine r t level category text) t
      (if r.isOpen then lineEntries r.headerOpen level category text else []) := by
  cases h : r.isOpen with
  | true =>
    rw [writeLine_open h]
    exact ⟨rfl, rfl, rfl, rfl, rfl⟩
  | false =>
    rw [writeLine_closed h]
    exact wrote_nothing r t

theorem writeLine_isOpen (r : Report ι) (t : ι) (level : Level) (category text : Bytes) :
    (writeLine r t level category text).isOpen = r.isOpen := by
  cases h : r.isOpen with
  | true => rw [writeLine_open h]; exact h
  | false => rw [writeLine_closed h]; exact h

theorem addContext_wrote (r : Report ι) (t : ι) (key value : Bytes) :
    Wrote r (addContext r t key value) t
      (if r.isOpen then
        if r.headerOpen then [.context (cString key) (cString value)]
        else [.event .info (cString key) (cString value)]
      else []) := by
  unfold addContext
  cases h : r.isOpen with
  | false => exact wrote_nothing r t
  | true =>
    cases header : r.headerOpen with
    | true => exact wrote_append r t _
    | false =>
      have wrote := writeLine_wrote r t .info (cString key) (cString value)
      rwa [if_pos h, header] at wrote

theorem addContext_isOpen (r : Report ι) (t : ι) (key value : Bytes) :
    (addContext r t key value).isOpen = r.isOpen := by
  unfold addContext
  split
  next => rfl
  next =>
    split
    next => rfl
    next => exact writeLine_isOpen r t _ _ _

theorem openCrash_wrote (r : Report ι) (t : ι) (kind : Bytes) :
    Wrote r (openCrash r t kind) t
      (if r.isOpen then lineEntries r.headerOpen .crash (ascii "crash") beginMark ++ [.kind kind]
      else []) := by
  unfold openCrash
  cases h : r.isOpen with
  | false => exact wrote_nothing r t
  | true =>
    have wrote := writeLine_wrote r t .crash (ascii "crash") beginMark
    rw [if_pos h] at wrote
    exact wrote.trans (wrote_append _ t _)

theorem openCrash_isOpen (r : Report ι) (t : ι) (kind : Bytes) :
    (openCrash r t kind).isOpen = r.isOpen := by
  unfold openCrash
  split
  next => rfl
  next => exact writeLine_isOpen r t _ _ _

theorem crashLine_wrote (r : Report ι) (t : ι) (text : Bytes) :
    Wrote r (crashLine r t text) t (if r.isOpen then [.crashText (formatted text)] else []) := by
  unfold crashLine
  cases r.isOpen with
  | false => exact wrote_nothing r t
  | true => exact wrote_append r t _

theorem crashLine_isOpen (r : Report ι) (t : ι) (text : Bytes) :
    (crashLine r t text).isOpen = r.isOpen := by
  unfold crashLine
  split <;> rfl

theorem closeCrash_wrote (r : Report ι) (t : ι) :
    Wrote r (closeCrash r t) t
      (if r.isOpen then .crashAdvice :: lineEntries r.headerOpen .crash (ascii "crash") endMark
      else []) := by
  unfold closeCrash
  cases h : r.isOpen with
  | false => exact wrote_nothing r t
  | true =>
    have wrote := writeLine_wrote (r.append t [.crashAdvice]) t .crash (ascii "crash") endMark
    rw [if_pos (show (r.append t [.crashAdvice]).isOpen from h)] at wrote
    exact (wrote_append r t [.crashAdvice]).trans wrote

theorem closeCrash_isOpen (r : Report ι) (t : ι) : (closeCrash r t).isOpen = r.isOpen := by
  unfold closeCrash
  split
  next => rfl
  next => exact writeLine_isOpen _ t _ _ _

def Report.summaryEntry (r : Report ι) (clean : Bool) : Entry :=
  .summary (counterValue r.errors) (counterValue r.warnings) (counterValue r.crashes) clean
    (counterValue r.errors == 0 && counterValue r.crashes == 0)

theorem closeReport_wrote (r : Report ι) (t : ι) (clean : Bool) :
    Wrote r (closeReport r t clean) t (if r.isOpen then [r.summaryEntry clean] else []) := by
  unfold closeReport
  cases r.isOpen with
  | false => exact wrote_nothing r t
  | true => exact ⟨rfl, rfl, rfl, rfl, rfl⟩

theorem closeReport_isOpen (r : Report ι) (t : ι) (clean : Bool) :
    (closeReport r t clean).isOpen = false := by
  unfold closeReport
  cases h : r.isOpen with
  | false => exact h
  | true => rfl

theorem classify_level (line : Bytes) :
    classify line = .error ∨ classify line = .warn ∨ classify line = .log := by
  unfold classify
  dsimp only
  split
  next => exact Or.inl rfl
  next => split <;> simp

theorem countClassified_rest (r : Report ι) (level : Level) :
    (countClassified r level).lines = r.lines ∧
      (countClassified r level).isOpen = r.isOpen ∧
      (countClassified r level).headerOpen = r.headerOpen ∧
      (countClassified r level).crashOwner = r.crashOwner := by
  cases level <;> exact ⟨rfl, rfl, rfl, rfl⟩

end Rayman2Recomp
