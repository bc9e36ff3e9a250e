import Rayman2Recomp.MaximalRuns
import Mathlib.Data.Char
import Mathlib.Data.List.Dedup
import Mathlib.Data.List.Lex
import Mathlib.Data.List.Sort

open MaximalRuns

namespace Rayman2Recomp

abbrev Chars := List Char

/-- What `str.split` splits at and `\s` matches. -/
def isPySpace (c : Char) : Bool :=
  (9 ≤ c.toNat && c.toNat ≤ 13) || (28 ≤ c.toNat && c.toNat ≤ 32) ||
    [0x85, 0xA0, 0x1680, 0x2028, 0x2029, 0x202F, 0x205F, 0x3000].contains c.toNat ||
    (0x2000 ≤ c.toNat && c.toNat ≤ 0x200A)

def pySplit (line : Chars) : List Chars := runs (fun c => !isPySpace c) line

def isNameStart (c : Char) : Bool := c.isAlpha || c == '_'

def isNameChar (c : Char) : Bool := c.isAlphanum || c == '_'

def isHex (c : Char) : Bool := c.isDigit || ('a' ≤ c && c ≤ 'f') || ('A' ≤ c && c ≤ 'F')

/-- `0x[0-9A-Fa-f]+|\d+`, and what follows it. `otherDigit` tells the decimal digits past ASCII. -/
def matchValue (otherDigit : Char → Bool) (text : Chars) : Option (Chars × Chars) :=
  let isDigit := fun c : Char => c.isDigit || (128 ≤ c.toNat && otherDigit c)
  let digits := text.takeWhile isDigit
  match text with
  | '0' :: 'x' :: rest =>
    if rest.takeWhile isHex = [] then some (['0'], 'x' :: rest)
    else some ('0' :: 'x' :: rest.takeWhile isHex, rest.dropWhile isHex)
  | _ => if digits = [] then none else some (digits, text.dropWhile isDigit)

/-- `ASSIGN`: the name and the value of a line that is an assignment. -/
def matchAssign (otherDigit : Char → Bool) (line : Chars) : Option (Chars × Chars) :=
  let body := line.dropWhile isPySpace
  if !body.head?.any isNameStart then none
  else
    match (body.dropWhile isNameChar).dropWhile isPySpace with
    | '=' :: rest =>
      (matchValue otherDigit (rest.dropWhile isPySpace)).bind fun (value, rest) =>
        if (rest.dropWhile isPySpace).head? = some ';' then some (body.takeWhile isNameChar, value)
        else none
    | _ => none

/-- `ADDR_NAME`: the address a name encodes. -/
def matchAddrName (name : Chars) : Option Chars :=
  [['D'], ['f', 'u', 'n', 'c'], ['j', 't', 'b', 'l'], ['j', 'p', 't'], ['L']].findSome? fun kind =>
    let digits := name.drop (kind.length + 1)
    if name.take (kind.length + 1) = kind ++ ['_'] ∧ digits.length = 8 ∧ digits.all isHex = true then
      some digits
    else none

def undefOf (line : Chars) : Option Chars :=
  match pySplit line with
  | [kind, name] => if kind = ['U'] then some name else none
  | _ => none

def definedOf (line : Chars) : Option Chars :=
  match pySplit line with
  | [_, kind, name] => if kind ≠ ['U'] then some name else none
  | _ => none

/-- A dictionary, its keys in the order they came. -/
abbrev Assignments := List (Chars × Chars)

def setDefault (emitted : Assignments) (name value : Chars) : Assignments :=
  if name ∈ emitted.map Prod.fst then emitted else emitted ++ [(name, value)]

/-- One line of a fragment: an assignment is kept unless an object defines its name. -/
def readFragmentLine (otherDigit : Char → Bool) (defined : List Chars)
    (s : Assignments × Nat) (line : Chars) : Assignments × Nat :=
  match matchAssign otherDigit line with
  | none => s
  | some (name, value) =>
    if name ∈ defined then (s.1, s.2 + 1) else (setDefault s.1 name value, s.2)

/-- One reference that nothing covers yet. -/
def resolve (s : Assignments × List Chars) (name : Chars) : Assignments × List Chars :=
  match matchAddrName name with
  | some digits => (s.1 ++ [(name, '0' :: 'x' :: digits.map Char.toUpper)], s.2)
  | none => (s.1, s.2 ++ [name])

structure LinkSymsRun where
  /-- The assignments of `link_syms.ld`, line after line. -/
  written : Assignments
  shadowed : Nat
  unresolved : List Chars
  /-- The unresolved names that are printed. -/
  printed : List Chars
  exitCode : Nat

/-- The lines of those fragments that exist. -/
def fragmentLines (fragments : List (Option (List Chars))) : List Chars :=
  fragments.flatMap (·.getD [])

/-- `sorted(undef - defined - set(emitted))` -/
def openNames (undef defined : List Chars) (emitted : Assignments) : List Chars :=
  (undef.dedup.filter fun name =>
    name ∉ defined ∧ name ∉ emitted.map Prod.fst).insertionSort (· ≤ ·)

/-- `gen_link_syms.py` over the lines nm prints and those of the fragments there are. -/
def genLinkSyms (otherDigit : Char → Bool) (nm : List Chars) (fragments : List (Option (List Chars))) :
    LinkSymsRun :=
  let undef := nm.filterMap undefOf
  let defined := nm.filterMap definedOf
  let kept := (fragmentLines fragments).foldl (readFragmentLine otherDigit defined) ([], 0)
  let settled := (openNames undef defined kept.1).foldl resolve (kept.1, [])
  { written := settled.1.insertionSort fun a b => a.1 ≤ b.1
    shadowed := kept.2
    unresolved := settled.2
    printed := settled.2.take 20
    exitCode := if settled.2 = [] then 0 else 1 }

/-- The nm letters of a symbol other objects see: upper case, but for the undefined ones, and the
unique global. -/
def isGlobalKind (kind : Chars) : Bool :=
  match kind with
  | [c] => (c.isUpper && c != 'U') || c == 'u'
  | _ => false

def globalOf (line : Chars) : Option Chars :=
  match pySplit line with
  | [_, kind, name] => if isGlobalKind kind then some name else none
  | _ => none

/-- A name that some object leaves undefined, and one that some object defines for the others. -/
abbrev IsUndef (nm : List Chars) (name : Chars) : Prop := name ∈ nm.filterMap undefOf

abbrev IsDefined (nm : List Chars) (name : Chars) : Prop := name ∈ nm.filterMap definedOf

abbrev IsGlobal (nm : List Chars) (name : Chars) : Prop := name ∈ nm.filterMap globalOf

theorem definedOf_of_global {line name : Chars} (h : globalOf line = some name) :
    definedOf line = some name := by
  unfold globalOf at h
  unfold definedOf
  split at h
  next place kind found shape =>
    split at h
    next isGlobal =>
      have other : kind ≠ ['U'] := by
        rintro rfl
        exact absurd isGlobal (by decide)
      rw [if_pos other]
      exact h
    next => exact absurd h (by simp)
  next => exact absurd h (by simp)

theorem IsGlobal.defined {nm : List Chars} {name : Chars} (h : IsGlobal nm name) :
    IsDefined nm name := by
  obtain ⟨line, member, found⟩ := List.mem_filterMap.mp h
  exact List.mem_filterMap.mpr ⟨line, member, definedOf_of_global found⟩

/-- Keys that are unique and of which no object defines any. -/
structure Unshadowing (defined : List Chars) (emitted : Assignments) : Prop where
  once : (emitted.map Prod.fst).Nodup
  free : ∀ name ∈ emitted.map Prod.fst, name ∉ defined

variable {defined : List Chars} {emitted : Assignments} {name value : Chars}

theorem Unshadowing.snoc (ok : Unshadowing defined emitted) (fresh : name ∉ emitted.map Prod.fst)
    (free : name ∉ defined) : Unshadowing defined (emitted ++ [(name, value)]) := by
  have keys : (emitted ++ [(name, value)]).map Prod.fst = emitted.map Prod.fst ++ [name] := by simp
  constructor
  · rw [keys]
    exact List.nodup_append.mpr ⟨ok.once, List.nodup_singleton name, by
      rintro a ha b hb rfl
      exact fresh (List.mem_singleton.mp hb ▸ ha)⟩
  · intro other member
    rw [keys] at member
    rcases List.mem_append.mp member with old | new
    · exact ok.free other old
    · rw [List.mem_singleton.mp new]
      exact free

theorem Unshadowing.setDefault (ok : Unshadowing defined emitted) (free : name ∉ defined) :
    Unshadowing defined (setDefault emitted name value) := by
  unfold Rayman2Recomp.setDefault
  split
  next => exact ok
  next fresh => exact ok.snoc fresh free

theorem readFragmentLine_ok {otherDigit : Char → Bool} {s : Assignments × Nat}
    (ok : Unshadowing defined s.1) (line : Chars) :
    Unshadowing defined (readFragmentLine otherDigit defined s line).1 := by
  unfold readFragmentLine
  cases matchAssign otherDigit line with
  | none => exact ok
  | some assigned =>
    simp only
    split
    next => exact ok
    next free => exact ok.setDefault free

theorem fragments_ok {otherDigit : Char → Bool} (lines : List Chars) {s : Assignments × Nat}
    (ok : Unshadowing defined s.1) :
    Unshadowing defined (lines.foldl (readFragmentLine otherDigit defined) s).1 := by
  induction lines generalizing s with
  | nil => exact ok
  | cons line lines ih => exact ih (readFragmentLine_ok ok line)

/-- Some line of a fragment assigns the name. -/
def IsAssigned (otherDigit : Char → Bool) (fragments : List (Option (List Chars))) (name : Chars) :
    Prop :=
  ∃ line ∈ fragmentLines fragments, ∃ value, matchAssign otherDigit line = some (name, value)

theorem mem_setDefault {other : Chars} :
    other ∈ (setDefault emitted name value).map Prod.fst ↔
      other ∈ emitted.map Prod.fst ∨ other = name := by
  unfold setDefault
  split
  next old =>
    refine ⟨Or.inl, ?_⟩
    rintro (known | rfl)
    · exact known
    · exact old
  next => simp

theorem mem_fragments {otherDigit : Char → Bool} (lines : List Chars) {s : Assignments × Nat} :
    name ∈ (lines.foldl (readFragmentLine otherDigit defined) s).1.map Prod.fst ↔
      name ∈ s.1.map Prod.fst ∨ (name ∉ defined ∧
        ∃ line ∈ lines, ∃ value, matchAssign otherDigit line = some (name, value)) := by
  induction lines generalizing s with
  | nil => simp
  | cons line lines ih =>
    rw [List.foldl_cons, ih]
    unfold readFragmentLine
    cases assigned : matchAssign otherDigit line with
    | none => simp [assigned]
    | some pair =>
      obtain ⟨found, value⟩ := pair
      simp only [List.exists_mem_cons_iff, assigned, Option.some.injEq, Prod.mk.injEq]
      split
      next known =>
        constructor
        · rintro (old | ⟨free, later⟩)
          · exact Or.inl old
          · exact Or.inr ⟨free, Or.inr later⟩
        · rintro (old | ⟨free, ⟨_, rfl, _⟩ | later⟩)
          · exact Or.inl old
          · exact absurd known free
          · exact Or.inr ⟨free, later⟩
      next unknown =>
        rw [mem_setDefault]
        constructor
        · rintro ((old | rfl) | ⟨free, later⟩)
          · exact Or.inl old
          · exact Or.inr ⟨unknown, Or.inl ⟨value, rfl, rfl⟩⟩
          · exact Or.inr ⟨free, Or.inr later⟩
        · rintro (old | ⟨free, ⟨_, rfl, _⟩ | later⟩)
          · exact Or.inl (Or.inl old)
          · exact Or.inl (Or.inr rfl)
          · exact Or.inr ⟨free, later⟩

theorem mem_openNames {undef : List Chars} :
    name ∈ openNames undef defined emitted ↔
      name ∈ undef ∧ name ∉ defined ∧ name ∉ emitted.map Prod.fst := by
  unfold openNames
  rw [(List.perm_insertionSort _ _).mem_iff, List.mem_filter, List.mem_dedup, decide_eq_true_iff]

theorem openNames_nodup {undef : List Chars} : (openNames undef defined emitted).Nodup :=
  (List.perm_insertionSort _ _).nodup_iff.mpr ((List.nodup_dedup _).filter _)

/-- Each open reference is assigned by its name or listed. -/
theorem foldl_resolve (names : List Chars) (s : Assignments × List Chars) :
    ((names.foldl resolve s).1.map Prod.fst =
        s.1.map Prod.fst ++ names.filter fun name => (matchAddrName name).isSome) ∧
      (names.foldl resolve s).2 = s.2 ++ names.filter fun name => (matchAddrName name).isNone := by
  induction names generalizing s with
  | nil => simp
  | cons name names ih =>
    rw [List.foldl_cons, (ih _).1, (ih _).2]
    unfold resolve
    cases encoded : matchAddrName name with
    | some digits => simp [encoded]
    | none => simp [encoded]

/-- A reference that no object defines, no fragment assigns and no address places. -/
def Unplaced (otherDigit : Char → Bool) (nm : List Chars) (fragments : List (Option (List Chars)))
    (name : Chars) : Prop :=
  IsUndef nm name ∧ ¬IsDefined nm name ∧ ¬IsAssigned otherDigit fragments name ∧
    matchAddrName name = none

section

variable {otherDigit : Char → Bool} {nm : List Chars} {fragments : List (Option (List Chars))}

/-- The names a run ends with: those assigned, and those it gives up on. -/
theorem genLinkSyms_names (otherDigit : Char → Bool) (nm : List Chars)
    (fragments : List (Option (List Chars))) :
    let run := genLinkSyms otherDigit nm fragments
    (run.written.map Prod.fst).Nodup ∧ run.unresolved.Nodup ∧
      (∀ name, name ∈ run.written.map Prod.fst ↔ ¬IsDefined nm name ∧
        (IsAssigned otherDigit fragments name ∨
          (IsUndef nm name ∧ (matchAddrName name).isSome))) ∧
      (∀ name, name ∈ run.unresolved ↔ Unplaced otherDigit nm fragments name) := by
  intro run
  let defined := nm.filterMap definedOf
  let kept := (fragmentLines fragments).foldl (readFragmentLine otherDigit defined) ([], 0)
  let names := openNames (nm.filterMap undefOf) defined kept.1
  have empty : Unshadowing defined ([] : Assignments) := ⟨List.nodup_nil, by simp⟩
  have ok : Unshadowing defined kept.1 := fragments_ok _ empty
  have keys : ∀ name, name ∈ kept.1.map Prod.fst ↔
      ¬IsDefined nm name ∧ IsAssigned otherDigit fragments name := by
    intro name
    rw [mem_fragments]
    simp only [List.map_nil, List.not_mem_nil, false_or]
    exact Iff.rfl
  have once : names.Nodup := openNames_nodup
  have listed : ∀ name, name ∈ names ↔ IsUndef nm name ∧ ¬IsDefined nm name ∧
      ¬IsAssigned otherDigit fragments name := by
    intro name
    rw [mem_openNames, keys]
    unfold IsUndef IsDefined
    tauto
  obtain ⟨assigned, given⟩ := foldl_resolve names (kept.1, [])
  have written : (run.written.map Prod.fst).Perm
      (kept.1.map Prod.fst ++ names.filter fun name => (matchAddrName name).isSome) := by
    rw [← assigned]
    exact (List.perm_insertionSort _ _).map _
  have unresolved : run.unresolved = names.filter fun name => (matchAddrName name).isNone := by
    rw [← List.nil_append (List.filter _ names)]
    exact given
  refine ⟨?_, ?_, fun name => ?_, fun name => ?_⟩
  · rw [written.nodup_iff, List.nodup_append]
    refine ⟨ok.once, once.filter _, ?_⟩
    rintro a ha b hb rfl
    have fresh := ((listed a).mp (List.mem_of_mem_filter hb)).2.2
    exact fresh ((keys a).mp ha).2
  · rw [unresolved]
    exact once.filter _
  · rw [written.mem_iff, List.mem_append, keys, List.mem_filter, listed]
    tauto
  · rw [unresolved, List.mem_filter, listed, Option.isNone_iff_eq_none]
    unfold Unplaced
    tauto

/-- No assignment shadows a global or comes twice, and every reference is a global of some object,
assigned, or listed by a run that fails. -/
def NothingLost (nm : List Chars) (run : LinkSymsRun) (listed : List Chars) : Prop :=
  (∀ name ∈ run.written.map Prod.fst, ¬IsGlobal nm name) ∧ (run.written.map Prod.fst).Nodup ∧
    ∀ name, IsUndef nm name → IsGlobal nm name ∨ name ∈ run.written.map Prod.fst ∨
      (name ∈ listed ∧ run.exitCode = 1)

/-- Every reference to a symbol that an object defines has one that defines it for the others. -/
def DefinedGlobally (nm : List Chars) : Prop :=
  ∀ name, IsUndef nm name → IsDefined nm name → IsGlobal nm name

theorem nothingLost_iff {listed : List Chars}
    (part : ∀ name ∈ listed, name ∈ (genLinkSyms otherDigit nm fragments).unresolved) :
    NothingLost nm (genLinkSyms otherDigit nm fragments) listed ↔
      DefinedGlobally nm ∧ ∀ name, Unplaced otherDigit nm fragments name → name ∈ listed := by
  obtain ⟨once, -, written, unresolved⟩ := genLinkSyms_names otherDigit nm fragments
  have exit : ∀ name ∈ (genLinkSyms otherDigit nm fragments).unresolved,
      (genLinkSyms otherDigit nm fragments).exitCode = 1 := fun name member =>
    if_neg (List.ne_nil_of_mem member)
  constructor
  · rintro ⟨-, -, covered⟩
    refine ⟨fun name undef known => ?_, fun name unplaced => ?_⟩
    · rcases covered name undef with isGlobal | assigned | ⟨given, -⟩
      · exact isGlobal
      · exact absurd known ((written name).mp assigned).1
      · exact absurd known ((unresolved name).mp (part name given)).2.1
    · obtain ⟨undef, unknown, unassigned, unnamed⟩ := unplaced
      rcases covered name undef with isGlobal | assigned | ⟨given, -⟩
      · exact absurd isGlobal.defined unknown
      · rcases ((written name).mp assigned).2 with assigned | ⟨-, encoded⟩
        · exact absurd assigned unassigned
        · rw [unnamed] at encoded
          exact absurd encoded (by decide)
      · exact given
  · rintro ⟨globally, all⟩
    refine ⟨fun name assigned isGlobal => ((written name).mp assigned).1 isGlobal.defined, once,
      fun name undef => ?_⟩
    by_cases known : IsDefined nm name
    · exact Or.inl (globally name undef known)
    · by_cases unplaced : Unplaced otherDigit nm fragments name
      · have given := all name unplaced
        exact Or.inr (Or.inr ⟨given, exit name (part name given)⟩)
      · refine Or.inr (Or.inl ((written name).mpr ⟨known, ?_⟩))
        by_contra missing
        push Not at missing
        refine unplaced ⟨undef, known, missing.1, ?_⟩
        simpa using missing.2 undef

theorem all_in_take_iff {names : List Chars} (once : names.Nodup) :
    (∀ name ∈ names, name ∈ names.take 20) ↔ ∃ few : List Chars, few.length ≤ 20 ∧ names ⊆ few := by
  constructor
  · intro all
    exact ⟨names.take 20, List.length_take_le _ _, all⟩
  · rintro ⟨few, short, inside⟩ name member
    have length := (List.subperm_of_subset once inside).length_le
    rw [List.take_of_length_le (by omega)]
    exact member

/-- What the run promises of the references holds exactly when no reference is to a symbol that is
only defined locally; and all it gives up on are printed when there are twenty at most. -/
theorem genLinkSyms_nothing_lost_iff (otherDigit : Char → Bool) (nm : List Chars)
    (fragments : List (Option (List Chars))) :
    let run := genLinkSyms otherDigit nm fragments
    (∀ name ∈ run.written.map Prod.fst, ¬IsGlobal nm name) ∧
      (run.written.map Prod.fst).Nodup ∧
      (NothingLost nm run run.unresolved ↔ DefinedGlobally nm) ∧
      (NothingLost nm run run.printed ↔ DefinedGlobally nm ∧
        ∃ few : List Chars, few.length ≤ 20 ∧
          ∀ name, Unplaced otherDigit nm fragments name → name ∈ few) := by
  intro run
  obtain ⟨once, distinct, written, unresolved⟩ := genLinkSyms_names otherDigit nm fragments
  refine ⟨fun name assigned isGlobal => ((written name).mp assigned).1 isGlobal.defined, once, ?_, ?_⟩
  · rw [nothingLost_iff fun name member => member]
    exact and_iff_left fun name unplaced => (unresolved name).mpr unplaced
  · have part : ∀ name ∈ run.printed, name ∈ run.unresolved := fun name member =>
      List.mem_of_mem_take member
    rw [nothingLost_iff part]
    refine and_congr_right fun _ => ?_
    simp only [← unresolved]
    exact all_in_take_iff distinct

end

/-- One object refers to a symbol that another defines for itself alone: nothing is assigned, nothing
is listed, and the run succeeds. -/
theorem local_definition_loses :
    ¬NothingLost ["         U D_80012340".toList, "00000010 d D_80012340".toList]
      (genLinkSyms (fun _ => false)
        ["         U D_80012340".toList, "00000010 d D_80012340".toList] [none, none])
      (genLinkSyms (fun _ => false)
        ["         U D_80012340".toList, "00000010 d D_80012340".toList] [none, none]).unresolved := by
  rw [nothingLost_iff fun name member => member]
  rintro ⟨globally, -⟩
  have isGlobal := globally "D_80012340".toList (by decide +kernel) (by decide +kernel)
  revert isGlobal
  decide +kernel

end Rayman2Recomp
