import Rayman2Recomp.CallGraph
import Mathlib.Data.Prod.Lex

open Saturation Relation

namespace Rayman2Recomp

/-- What `parse` returns of a function: its code, and its local labels, each with
the number of instructions before it. -/
structure ListedFunc where
  code : ParsedFunc
  labels : Chars → Option Nat

/-- `BRANCH` -/
def isLoopBranch (otherWord : Char → Bool) (mnem : Chars) : Bool :=
  match mnem with
  | 'b' :: rest => rest.all fun c => isNameChar c || (128 ≤ c.toNat && otherWord c)
  | _ => mnem = ['j']

/-- `TARGET`: the local label the operands end with. -/
def targetLabel (ops : Chars) : Option Chars :=
  let text := ops.rdropWhile isPySpace
  let digits := text.rtakeWhile isHex
  if digits ≠ [] ∧ (text.rdropWhile isHex).rtake 2 = ".L".toList then some ('L' :: digits) else none

/-- `SELF_TARGET`: the name the operands end with. -/
def selfTarget (ops : Chars) : Option Chars :=
  let name := ((ops.rdropWhile isPySpace).rtakeWhile isNameChar).dropWhile fun c => !isNameStart c
  if name = [] then none else some name

/-- Where the loop that a branch closes would start. -/
def ListedFunc.loopStart (f : ListedFunc) (branch : Insn) : Option Nat :=
  match (targetLabel branch.ops).bind f.labels with
  | some start => some start
  | none => if selfTarget branch.ops = some f.code.func then some 0 else none

/-- `body[start:i + 2]`, with the delay slot. -/
def ListedFunc.loop (f : ListedFunc) (start i : Nat) : ParsedFunc :=
  ⟨f.code.func, (f.code.body.drop start).take (i + 2 - start)⟩

structure SpinRow where
  length : Nat
  func : Chars
  start : Nat
  branch : Nat
  waited : List Chars
  callees : List Chars
  canYield : Bool

/-- The tuple the rows are sorted by. -/
def SpinRow.key (row : SpinRow) :
    Nat ×ₗ Chars ×ₗ Nat ×ₗ Nat ×ₗ List Chars ×ₗ List Chars ×ₗ Bool :=
  toLex (row.length, toLex (row.func, toLex (row.start, toLex (row.branch, toLex (row.waited,
    toLex (row.callees, row.canYield))))))

theorem names_trans : IsTrans Chars (· ≤ ·) := inferInstance

theorem names_antisymm : Std.Antisymm fun a b : Chars => a ≤ b := inferInstance

theorem names_total : Std.Total fun a b : Chars => a ≤ b := inferInstance

/-- `sorted` of a set of names -/
def sortedNames (names : Finset Chars) : List Chars :=
  @Finset.sort Chars names (· ≤ ·) _ names_trans names_antisymm names_total

/-- `loads - stores` -/
def waitedOn (t : SpinTables) (loop : ParsedFunc) : Finset Chars :=
  (directReads loop ∪ loop.targets.biUnion t.reads.get) \
    (directWrites loop ∪ loop.targets.biUnion t.writes.get)

section

variable (otherWord : Char → Bool)

/-- The row of a loop that is code of its own, if it is to be listed. -/
def loopRow (all : Bool) (t : SpinTables) (loop : ParsedFunc) (first branch : Nat) :
    Option SpinRow :=
  let canYield : Bool := (loop.targets ∩ t.yields).Nonempty
  let waited := waitedOn t loop
  if loop.body.any fun e => e.mnem = "jalr".toList then none
  else if canYield && !all then none
  else if waited = ∅ then none
  else if !all && loopMakesProgress otherWord loop.body then none
  else some
    { length := loop.body.length
      func := loop.func
      start := first
      branch := branch
      waited := sortedNames waited
      callees := sortedNames loop.targets
      canYield := canYield }

/-- One instruction of one function. A loop starts before its branch, so that
`body[start]` is there. -/
def branchRow (all : Bool) (t : SpinTables) (f : ListedFunc) (branch : Insn) (i : Nat) :
    Option SpinRow :=
  if !isLoopBranch otherWord branch.mnem then none
  else
    (f.loopStart branch).bind fun start =>
      if start ≥ i then none
      else
        (f.code.body[start]?).bind fun first =>
          loopRow otherWord all t (f.loop start i) first.vram branch.vram

def spinRows (all : Bool) (t : SpinTables) (funcs : List ListedFunc) : List SpinRow :=
  funcs.flatMap fun f => f.code.body.zipIdx.filterMap fun (branch, i) =>
    branchRow otherWord all t f branch i

/-- `main` over the functions it has parsed, up to what it prints. -/
def findSpinLoops (order : SetOrder) (all : Bool) (funcs : List ListedFunc) (fuel : Nat) :
    Option (List SpinRow) :=
  (spinTables order (funcs.map ListedFunc.code) fuel).map fun t =>
    (spinRows otherWord all t funcs).insertionSort fun a b => a.key ≤ b.key

/-- The rows that are printed. -/
def shownRows (all : Bool) (maxLen : Nat) (rows : List SpinRow) : List SpinRow :=
  rows.filter fun row => all || row.length ≤ maxLen

end

/-- What the loop touches itself or through any function it can come to call. -/
def LoopTouches (direct : ParsedFunc → Finset Chars) (funcs : List ParsedFunc) (loop : ParsedFunc)
    (x : Chars) : Prop :=
  x ∈ direct loop ∨
    ∃ c ∈ loop.targets, ∃ g ∈ funcs, ReflTransGen (Calls funcs) c g.func ∧ x ∈ direct g

/-- The loop can come to call a function that delivers messages. -/
def MayYield (funcs : List ParsedFunc) (loop : ParsedFunc) : Prop :=
  ∃ c ∈ loop.targets, ∃ point ∈ yieldPoints, ReflTransGen (Calls funcs) c point

/-- The loop leaves by a register that depends on nothing it carries round. -/
def WaitsIdly (otherWord : Char → Bool) (span : List Insn) : Prop :=
  ∃ branch, lastBranch otherWord span = some branch ∧
    (∃ u ∈ branch.uses otherWord, u ≠ zeroReg) ∧
    ∃ deps : Set Chars, IsLeast (dependencySets otherWord span branch) deps ∧
      ∀ r ∈ deps, ¬LoopCarried otherWord span r

/-- The branch at `i` goes back to the instruction at `start`. -/
structure ClosesLoop (otherWord : Char → Bool) (f : ListedFunc) (start i : Nat)
    (first branch : Insn) : Prop where
  begins : f.code.body[start]? = some first
  ends : f.code.body[i]? = some branch
  jumps : isLoopBranch otherWord branch.mnem = true
  target : f.loopStart branch = some start
  earlier : start < i

/-- A loop that only somebody else can end, and that gives nobody else a turn. -/
structure Spins (otherWord : Char → Bool) (funcs : List ParsedFunc) (loop : ParsedFunc) : Prop where
  direct : ∀ e ∈ loop.body, e.mnem ≠ "jalr".toList
  never : ¬MayYield funcs loop
  waits : ∃ x, LoopTouches directReads funcs loop x ∧ ¬LoopTouches directWrites funcs loop x
  idle : WaitsIdly otherWord loop.body

/-- The row names the loop, what it waits for and what it calls. -/
structure Describes (funcs : List ParsedFunc) (loop : ParsedFunc) (first branch : Insn)
    (row : SpinRow) : Prop where
  length : row.length = loop.body.length
  func : row.func = loop.func
  start : row.start = first.vram
  branch : row.branch = branch.vram
  waited : ∀ x, x ∈ row.waited ↔
    LoopTouches directReads funcs loop x ∧ ¬LoopTouches directWrites funcs loop x
  callees : ∀ c, c ∈ row.callees ↔ c ∈ loop.targets
  ordered : row.waited.Pairwise (· < ·) ∧ row.callees.Pairwise (· < ·)
  canYield : row.canYield = false

section

variable {funcs : List ParsedFunc} {yields : Finset Chars} {direct : ParsedFunc → Finset Chars}
  {table : Table} {name func x : Chars} {t : SpinTables} {loop : ParsedFunc}
  {otherWord : Char → Bool}

/-- A name without code has no entry. -/
def NoEntry (funcs : List ParsedFunc) (s : Table × Table) : Prop :=
  ∀ name, name ∉ funcs.map ParsedFunc.func → s.1 name = none ∧ s.2 name = none

theorem noEntry_propagate (defined : func ∈ funcs.map ParsedFunc.func) (c : Chars)
    {s : Table × Table} (h : NoEntry funcs s) : NoEntry funcs (propagate yields func s c).1 := by
  unfold propagate
  split
  next => exact h
  next =>
    intro name missing
    have other : name ≠ func := fun same => missing (same ▸ defined)
    exact ⟨mergeCallee_none.mpr ⟨other, (h name missing).1⟩,
      mergeCallee_none.mpr ⟨other, (h name missing).2⟩⟩

theorem noEntry_result (distinct : (funcs.map ParsedFunc.func).Nodup) {order : SetOrder}
    {fuel : Nat} {s : Table × Table}
    (ends : whileChanged (fun s => sweep (propagateAll order yields) s (callDict funcs)) fuel
      (directTable directReads funcs, directTable directWrites funcs) = some s) :
    NoEntry funcs s := by
  have start : NoEntry funcs (directTable directReads funcs, directTable directWrites funcs) :=
    fun name missing => ⟨directTable_none.mpr missing, directTable_none.mpr missing⟩
  refine whileChanged_keeps (fun s h => sweep_keeps ?_ h) start ends
  intro entry member s h
  obtain ⟨f, known, rfl⟩ := (mem_callDict distinct).mp member
  exact sweep_keeps (fun c _ s h => noEntry_propagate (List.mem_map_of_mem known) c h) h

/-- All `main` needs to know of its tables. -/
structure TablesFound (funcs : List ParsedFunc) (t : SpinTables) : Prop where
  yields : ∀ name, name ∈ t.yields ↔ ∃ point ∈ yieldPoints, ReflTransGen (Calls funcs) name point
  reads : TouchesReached directReads funcs t.yields t.reads
  writes : TouchesReached directWrites funcs t.yields t.writes
  unknown : NoEntry funcs (t.reads, t.writes)

theorem spinTables_found (order : SetOrder) (distinct : (funcs.map ParsedFunc.func).Nodup) :
    ∃ enough t, (∀ fuel, enough < fuel → spinTables order funcs fuel = some t) ∧
      TablesFound funcs t := by
  obtain ⟨enough, yields, ends, exactly⟩ := yields_exact distinct
  obtain ⟨enough', s, ends', reads, writes⟩ := tables_exact distinct order yields
  refine ⟨max enough enough', ⟨yields, s.1, s.2⟩, ?_, Set.ext_iff.mp exactly, reads, writes, ?_⟩
  · intro fuel more
    unfold spinTables
    simp only [ends fuel (by omega), ends' fuel (by omega), Option.bind_some, Option.map_some]
  · exact noEntry_result distinct (ends' (enough' + 1) (by omega))

/-- From a function that cannot yield, every call is a quiet one. -/
theorem quiet_path (yields_iff : ∀ name, name ∈ yields ↔
      ∃ point ∈ yieldPoints, ReflTransGen (Calls funcs) name point)
    (quiet : name ∉ yields) (path : ReflTransGen (Calls funcs) name x) :
    ReflTransGen (QuietCall funcs yields) name x := by
  induction path using ReflTransGen.head_induction_on with
  | refl => exact .refl
  | head edge rest ih =>
    rename_i a b
    have next : b ∉ yields := by
      intro here
      obtain ⟨point, base, onward⟩ := (yields_iff b).mp here
      exact quiet ((yields_iff a).mpr ⟨point, base, .head edge onward⟩)
    exact .head ⟨edge, next⟩ (ih next)

theorem called_defined {a b : Chars} (path : ReflTransGen (Calls funcs) a b) (other : a ≠ b) :
    a ∈ funcs.map ParsedFunc.func := by
  obtain same | ⟨c, ⟨f, member, rfl, -⟩, -⟩ := ReflTransGen.cases_head path
  · exact absurd same other
  · exact List.mem_map_of_mem member

/-- What a table has under a name that cannot yield. -/
theorem mem_get_quiet (yields_iff : ∀ name, name ∈ yields ↔
      ∃ point ∈ yieldPoints, ReflTransGen (Calls funcs) name point)
    (found : TouchesReached direct funcs yields table)
    (unknown : ∀ name, name ∉ funcs.map ParsedFunc.func → table name = none)
    (quiet : name ∉ yields) : x ∈ table.get name ↔
      ∃ g ∈ funcs, ReflTransGen (Calls funcs) name g.func ∧ x ∈ direct g := by
  by_cases known : name ∈ funcs.map ParsedFunc.func
  · obtain ⟨f, member, rfl⟩ := List.mem_map.mp known
    obtain ⟨entry, here, exactly⟩ := found f member
    rw [Table.get, here, Option.getD_some, exactly]
    constructor
    · intro reached
      obtain ⟨g, member, path, touched⟩ := reached
      exact ⟨g, member, ReflTransGen.mono (fun _ _ edge => edge.1) _ _ path, touched⟩
    · intro reached
      obtain ⟨g, member, path, touched⟩ := reached
      exact ⟨g, member, quiet_path yields_iff quiet path, touched⟩
  · rw [Table.get, unknown name known, Option.getD_none]
    refine iff_of_false (Finset.notMem_empty x) fun reached => known ?_
    obtain ⟨g, member, path, -⟩ := reached
    by_cases same : name = g.func
    · rw [same]
      exact List.mem_map_of_mem member
    · exact called_defined path same

theorem mayYield_iff (found : TablesFound funcs t) :
    MayYield funcs loop ↔ (loop.targets ∩ t.yields).Nonempty := by
  constructor
  · intro may
    obtain ⟨c, called, reaches⟩ := may
    exact ⟨c, Finset.mem_inter.mpr ⟨called, (found.yields c).mpr reaches⟩⟩
  · intro may
    obtain ⟨c, both⟩ := may
    obtain ⟨called, marked⟩ := Finset.mem_inter.mp both
    exact ⟨c, called, (found.yields c).mp marked⟩

theorem loopTouches_iff (yields_iff : ∀ name, name ∈ yields ↔
      ∃ point ∈ yieldPoints, ReflTransGen (Calls funcs) name point)
    (found : TouchesReached direct funcs yields table)
    (unknown : ∀ name, name ∉ funcs.map ParsedFunc.func → table name = none)
    (quiet : ∀ c ∈ loop.targets, c ∉ yields) :
    x ∈ direct loop ∪ loop.targets.biUnion table.get ↔ LoopTouches direct funcs loop x := by
  rw [Finset.mem_union, Finset.mem_biUnion]
  apply or_congr_right
  apply exists_congr
  intro c
  apply and_congr_right
  intro called
  exact mem_get_quiet yields_iff found unknown (quiet c called)

theorem mem_waitedOn (found : TablesFound funcs t) (never : ¬MayYield funcs loop) :
    x ∈ waitedOn t loop ↔
      LoopTouches directReads funcs loop x ∧ ¬LoopTouches directWrites funcs loop x := by
  have quiet : ∀ c ∈ loop.targets, c ∉ t.yields := fun c called marked =>
    never ⟨c, called, (found.yields c).mp marked⟩
  rw [waitedOn, Finset.mem_sdiff,
    loopTouches_iff found.yields found.reads (fun name missing => (found.unknown name missing).1) quiet,
    loopTouches_iff found.yields found.writes (fun name missing => (found.unknown name missing).2)
      quiet]

theorem dependency_nonzero {span : List Insn} {branch : Insn} {r : Chars}
    (here : r ∈ dependencies otherWord span branch) : r ≠ zeroReg := by
  have others : {r | r ≠ zeroReg} ∈ dependencySets otherWord span branch :=
    ⟨fun _ _ other => other, fun _ _ _ _ _ _ _ other => other⟩
  exact (dependencies_least otherWord span branch).2 others here

theorem waitsIdly_iff {span : List Insn} :
    WaitsIdly otherWord span ↔ loopMakesProgress otherWord span = false := by
  unfold WaitsIdly loopMakesProgress
  cases lastBranch otherWord span with
  | none => simp
  | some branch =>
    have least := dependencies_least otherWord span branch
    have tests : (∃ u ∈ branch.uses otherWord, u ≠ zeroReg) ↔ tested otherWord branch ≠ ∅ := by
      rw [← Finset.nonempty_iff_ne_empty]
      exact exists_congr fun u => mem_tested.symm
    simp only [Option.some.injEq, exists_eq_left']
    rw [tests]
    split
    next empty => exact iff_of_false (fun idle => idle.1 empty) Bool.noConfusion
    next some_tested =>
      rw [decide_eq_false_iff_not, not_not, ← Finset.disjoint_iff_inter_eq_empty,
        Finset.disjoint_left]
      constructor
      · intro idle r here carried
        obtain ⟨-, deps, min, apart⟩ := idle
        rw [min.unique least] at apart
        exact apart r here (mem_loopCarried.mp carried).2
      · intro apart
        refine ⟨some_tested, _, least, fun r here carried => ?_⟩
        exact apart here (mem_loopCarried.mpr ⟨dependency_nonzero here, carried⟩)

theorem mem_sortedNames {names : Finset Chars} : x ∈ sortedNames names ↔ x ∈ names :=
  Finset.mem_sort (· ≤ ·)

theorem sortedNames_unique {found : Finset Chars} {listed : List Chars} (ordered : listed.Pairwise (· < ·))
    (same : ∀ x, x ∈ listed ↔ x ∈ found) : sortedNames found = listed := by
  have once : listed.Nodup := ordered.imp fun h => ne_of_lt h
  have whole : listed.toFinset = found := Finset.ext fun x => List.mem_toFinset.trans (same x)
  rw [← whole]
  exact (List.toFinset_sort (· ≤ ·) once).mpr (ordered.imp le_of_lt)

theorem loopRow_some {first branch : Nat} {row : SpinRow} :
    loopRow otherWord false t loop first branch = some row ↔
      (∀ e ∈ loop.body, e.mnem ≠ "jalr".toList) ∧ ¬(loop.targets ∩ t.yields).Nonempty ∧
      waitedOn t loop ≠ ∅ ∧ loopMakesProgress otherWord loop.body = false ∧
      SpinRow.mk loop.body.length loop.func first branch (sortedNames (waitedOn t loop))
        (sortedNames loop.targets) false = row := by
  unfold loopRow
  simp only [Bool.not_false, Bool.and_true, Bool.true_and]
  generalize "jalr".toList = indirect
  have direct : (loop.body.any fun e => e.mnem = indirect) = true ↔
      ¬∀ e ∈ loop.body, e.mnem ≠ indirect := by simp
  by_cases calls : ∀ e ∈ loop.body, e.mnem ≠ indirect
  · rw [if_neg (direct.not.mpr (not_not.mpr calls))]
    by_cases may : (loop.targets ∩ t.yields).Nonempty
    · simp [may]
    · by_cases empty : waitedOn t loop = ∅
      · simp [empty]
      · cases loopMakesProgress otherWord loop.body with
        | true => simp [may, empty]
        | false =>
          simp only [may, empty, if_false, Bool.false_eq_true, decide_false, Option.some.injEq,
            not_false_eq_true, ne_eq, true_and]
          exact (and_iff_right calls).symm
  · rw [if_pos (direct.mpr calls)]
    exact iff_of_false (fun h => by cases h) fun h => calls h.1

/-- A row is made of exactly the loops that spin. -/
theorem loopRow_iff (found : TablesFound funcs t) {first branch : Insn} {row : SpinRow} :
    loopRow otherWord false t loop first.vram branch.vram = some row ↔
      Spins otherWord funcs loop ∧ Describes funcs loop first branch row := by
  rw [loopRow_some, ← mayYield_iff found, ← waitsIdly_iff]
  constructor
  · intro h
    obtain ⟨direct, never, waits, idle, rfl⟩ := h
    have waited : ∀ x, x ∈ waitedOn t loop ↔ LoopTouches directReads funcs loop x ∧
        ¬LoopTouches directWrites funcs loop x := fun x => mem_waitedOn found never
    obtain ⟨x, here⟩ := Finset.nonempty_iff_ne_empty.mpr waits
    refine ⟨⟨direct, never, ⟨x, (waited x).mp here⟩, idle⟩, rfl, rfl, rfl, rfl, fun x => ?_,
      fun c => ?_, ⟨(Finset.sortedLT_sort (waitedOn t loop)).pairwise,
        (Finset.sortedLT_sort loop.targets).pairwise⟩, rfl⟩
    · rw [mem_sortedNames, waited]
    · rw [mem_sortedNames]
  · intro h
    obtain ⟨spins, describes⟩ := h
    have waited : ∀ x, x ∈ waitedOn t loop ↔ LoopTouches directReads funcs loop x ∧
        ¬LoopTouches directWrites funcs loop x := fun x => mem_waitedOn found spins.never
    obtain ⟨x, read, unwritten⟩ := spins.waits
    refine ⟨spins.direct, spins.never, ?_, spins.idle, ?_⟩
    · exact Finset.ne_empty_of_mem ((waited x).mpr ⟨read, unwritten⟩)
    · obtain ⟨length, func, start, last, waitedRow, callees, ordered, canYield⟩ := describes
      rw [sortedNames_unique ordered.1 fun x => (waitedRow x).trans (waited x).symm,
        sortedNames_unique ordered.2 callees, ← length, ← func, ← start, ← last, ← canYield]

theorem branchRow_iff (found : TablesFound funcs t) {f : ListedFunc} {branch : Insn} {i : Nat}
    (here : f.code.body[i]? = some branch) {row : SpinRow} :
    branchRow otherWord false t f branch i = some row ↔ ∃ start first,
      ClosesLoop otherWord f start i first branch ∧ Spins otherWord funcs (f.loop start i) ∧
        Describes funcs (f.loop start i) first branch row := by
  unfold branchRow
  cases jumps : isLoopBranch otherWord branch.mnem with
  | false =>
    refine iff_of_false (fun h => by cases h) fun h => ?_
    obtain ⟨start, first, closes, -⟩ := h
    exact absurd (closes.jumps.symm.trans jumps) Bool.noConfusion
  | true =>
    rw [Bool.not_true, if_neg Bool.false_ne_true, Option.bind_eq_some_iff]
    apply exists_congr
    intro start
    constructor
    · intro h
      obtain ⟨target, h⟩ := h
      split at h
      next => cases h
      next earlier =>
        obtain ⟨first, begins, made⟩ := Option.bind_eq_some_iff.mp h
        exact ⟨first, ⟨begins, here, jumps, target, not_le.mp earlier⟩, (loopRow_iff found).mp made⟩
    · intro h
      obtain ⟨first, closes, made⟩ := h
      refine ⟨closes.target, ?_⟩
      rw [if_neg (not_le.mpr closes.earlier), closes.begins, Option.bind_some]
      exact (loopRow_iff found).mpr made

theorem mem_spinRows (found : TablesFound funcs t) {listed : List ListedFunc} {row : SpinRow} :
    row ∈ spinRows otherWord false t listed ↔ ∃ f ∈ listed, ∃ start i first branch,
      ClosesLoop otherWord f start i first branch ∧ Spins otherWord funcs (f.loop start i) ∧
        Describes funcs (f.loop start i) first branch row := by
  unfold spinRows
  rw [List.mem_flatMap]
  apply exists_congr
  intro f
  apply and_congr_right
  intro member
  rw [List.mem_filterMap]
  constructor
  · intro h
    obtain ⟨⟨branch, i⟩, place, made⟩ := h
    have here : f.code.body[i]? = some branch := List.mem_zipIdx_iff_getElem?.mp place
    obtain ⟨start, first, spins⟩ := (branchRow_iff found here).mp made
    exact ⟨start, i, first, branch, spins⟩
  · intro h
    obtain ⟨start, i, first, branch, spins⟩ := h
    have here := spins.1.ends
    exact ⟨(branch, i), List.mem_zipIdx_iff_getElem?.mpr here,
      (branchRow_iff found here).mpr ⟨start, first, spins⟩⟩

theorem SpinRow.length_le {a b : SpinRow} (h : a.key ≤ b.key) : a.length ≤ b.length := by
  rcases Prod.Lex.le_iff.mp h with shorter | ⟨same, -⟩
  · exact le_of_lt shorter
  · exact le_of_eq same

/-- Of sorted rows an initial part is printed. -/
theorem shownRows_initial {rows : List SpinRow} (sorted : rows.Pairwise fun a b => a.key ≤ b.key)
    (maxLen : Nat) :
    ∃ longer, rows = shownRows false maxLen rows ++ longer ∧ ∀ row ∈ longer, maxLen < row.length := by
  induction rows with
  | nil => exact ⟨[], rfl, fun row h => absurd h List.not_mem_nil⟩
  | cons row rest ih =>
    obtain ⟨least, later⟩ := List.pairwise_cons.mp sorted
    by_cases fits : row.length ≤ maxLen
    · obtain ⟨longer, split, long⟩ := ih later
      refine ⟨longer, ?_, long⟩
      have shown : shownRows false maxLen (row :: rest) = row :: shownRows false maxLen rest :=
        List.filter_cons_of_pos (by simpa using fits)
      rw [shown, List.cons_append, ← split]
    · have long : ∀ other ∈ row :: rest, maxLen < other.length := by
        refine List.forall_mem_cons.mpr ⟨not_le.mp fits, fun other mem => ?_⟩
        exact (not_le.mp fits).trans_le (SpinRow.length_le (least other mem))
      refine ⟨row :: rest, ?_, long⟩
      have shown : shownRows false maxLen (row :: rest) = [] := by
        refine List.filter_eq_nil_iff.mpr fun other mem => ?_
        simpa using long other mem
      rw [shown, List.nil_append]

/-- The scan ends, and lists, shortest first, exactly the loops that leave by what they do not
advance, come to call nothing that yields, and wait for a global that nothing they run writes. It
prints an initial part of the list, up to a length. -/
theorem findSpinLoops_exact (otherWord : Char → Bool) (order : SetOrder) (listed : List ListedFunc)
    (distinct : (listed.map fun f => f.code.func).Nodup) :
    ∃ enough rows, (∀ fuel, enough < fuel →
        findSpinLoops otherWord order false listed fuel = some rows) ∧
      rows.Pairwise (fun a b => a.key ≤ b.key) ∧
      (∀ row, row ∈ rows ↔ ∃ f ∈ listed, ∃ start i first branch,
        ClosesLoop otherWord f start i first branch ∧
        Spins otherWord (listed.map ListedFunc.code) (f.loop start i) ∧
        Describes (listed.map ListedFunc.code) (f.loop start i) first branch row) ∧
      ∀ maxLen, ∃ longer, rows = shownRows false maxLen rows ++ longer ∧
        ∀ row ∈ longer, maxLen < row.length := by
  have names : ((listed.map ListedFunc.code).map ParsedFunc.func).Nodup := by
    rw [List.map_map]
    exact distinct
  obtain ⟨enough, t, ends, found⟩ := spinTables_found order names
  have total : Std.Total fun a b : SpinRow => a.key ≤ b.key := ⟨fun a b => le_total a.key b.key⟩
  have trans : IsTrans SpinRow fun a b => a.key ≤ b.key := ⟨fun _ _ _ => le_trans⟩
  have sorted := List.pairwise_insertionSort (fun a b : SpinRow => a.key ≤ b.key)
    (spinRows otherWord false t listed)
  refine ⟨enough, (spinRows otherWord false t listed).insertionSort fun a b => a.key ≤ b.key,
    fun fuel more => ?_, sorted, fun row => ?_, shownRows_initial sorted⟩
  · rw [findSpinLoops, ends fuel more, Option.map_some]
  · rw [List.mem_insertionSort, mem_spinRows found]

end

/-- The wait for a byte that a leaf reads, and a loop that advances what it tests. -/
def waitingListing : List ListedFunc :=
  [⟨⟨"func_8008F344".toList, [⟨0x8008F344, "nop".toList, []⟩,
      ⟨0x8008F348, "jal".toList, "func_8008EF6C".toList⟩, ⟨0x8008F34C, "nop".toList, []⟩,
      ⟨0x8008F350, "bnez".toList, "$v0, .L8008F348".toList⟩, ⟨0x8008F354, "nop".toList, []⟩]⟩,
      fun name => if name = "L8008F348".toList then some 1 else none⟩,
    ⟨⟨"func_8008EF6C".toList,
      [⟨0x8008EF6C, "lbu".toList, "$v0, %lo(D_800250D8)($v0)".toList⟩]⟩, fun _ => none⟩,
    ⟨⟨"func_80090000".toList, listWalk⟩, fun _ => some 0⟩]

theorem findSpinLoops_waitingListing :
    ∃ enough rows, (∀ fuel, enough < fuel →
        findSpinLoops (fun _ => false) nameOrder false waitingListing fuel = some rows) ∧
      rows.Pairwise (fun a b => a.key ≤ b.key) ∧
      (∀ row, row ∈ rows ↔ ∃ f ∈ waitingListing, ∃ start i first branch,
        ClosesLoop (fun _ => false) f start i first branch ∧
        Spins (fun _ => false) (waitingListing.map ListedFunc.code) (f.loop start i) ∧
        Describes (waitingListing.map ListedFunc.code) (f.loop start i) first branch row) ∧
      ∀ maxLen, ∃ longer, rows = shownRows false maxLen rows ++ longer ∧
        ∀ row ∈ longer, maxLen < row.length :=
  findSpinLoops_exact (fun _ => false) nameOrder waitingListing (by decide +kernel)

end Rayman2Recomp
