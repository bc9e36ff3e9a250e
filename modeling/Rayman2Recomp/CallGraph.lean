import Rayman2Recomp.SpinLoops
import Mathlib.Data.Char
import Mathlib.Data.Finset.Prod
import Mathlib.Data.Finset.Sort
import Mathlib.Data.Finset.Union
import Mathlib.Data.List.DropRight
import Mathlib.Data.List.Lex

open Saturation Relation

namespace Rayman2Recomp

/-- A function as `parse` reads it. -/
structure ParsedFunc where
  func : Chars
  body : List Insn
deriving DecidableEq

def pyStrip (text : Chars) : Chars := (text.dropWhile isPySpace).rdropWhile isPySpace

/-- What `JAL_TARGET` finds in the operands of a `jal`. -/
def jalName (ops : Chars) : Option Chars :=
  let name := pyStrip ops
  if name.head?.any isNameStart && name.all isNameChar then some name else none

/-- The name in the `%lo` that the text starts with. -/
def loName (text : Chars) : Option Chars :=
  let name := (text.drop 4).takeWhile isNameChar
  if text.take 4 = "%lo(".toList ∧ name.head?.any isNameStart ∧
      text[4 + name.length]? = some ')' then some name
  else none

/-- `LO_REF.findall` -/
def loNames : Chars → List Chars
  | [] => []
  | c :: rest => (loName (c :: rest)).toList ++ loNames rest

/-- `STORE` -/
def isStore (mnem : Chars) : Bool :=
  ["sb", "sh", "sw", "sd", "swl", "swr", "sc", "swc1", "sdc1", "swc2"].any fun s => s.toList = mnem

/-- `YIELD_POINTS` -/
def yieldPoints : Finset Chars :=
  (["osSendMesg", "osRecvMesg", "osJamMesg", "osYieldThread", "osStopThread"].map
    String.toList).toFinset

def ParsedFunc.targets (f : ParsedFunc) : Finset Chars :=
  ((f.body.filter fun e => e.mnem = "jal".toList).filterMap fun e => jalName e.ops).toFinset

/-- The globals the instructions of a kind name. -/
def ParsedFunc.globals (kind : Chars → Bool) (f : ParsedFunc) : Finset Chars :=
  ((f.body.filter fun e => kind e.mnem).flatMap fun e => loNames e.ops).toFinset

def directReads : ParsedFunc → Finset Chars := ParsedFunc.globals fun mnem => !isStore mnem

def directWrites : ParsedFunc → Finset Chars := ParsedFunc.globals isStore

abbrev CallDict := List (Chars × Finset Chars)

/-- `calls[func] = targets`: a key that is there keeps its place. -/
def CallDict.assign (calls : CallDict) (func : Chars) (targets : Finset Chars) : CallDict :=
  if calls.any fun entry => entry.1 = func then
    calls.map fun entry => if entry.1 = func then (func, targets) else entry
  else calls ++ [(func, targets)]

def callDict (funcs : List ParsedFunc) : CallDict :=
  funcs.foldl (fun calls f => calls.assign f.func f.targets) []

/-- `reads` or `writes` -/
abbrev Table := Chars → Option (Finset Chars)

def directTable (direct : ParsedFunc → Finset Chars) (funcs : List ParsedFunc) : Table :=
  funcs.foldl (fun table f => Function.update table f.func (some (direct f))) fun _ => none

/-- The orders in which the loops take the callees of each function. -/
structure SetOrder where
  items : Chars → Finset Chars → List Chars
  mem_items : ∀ func targets t, t ∈ items func targets ↔ t ∈ targets

/-- One entry of the first loop. -/
def markYield (yields : Finset Chars) (entry : Chars × Finset Chars) : Finset Chars × Bool :=
  if entry.1 ∉ yields ∧ (entry.2 ∩ yields).Nonempty then (insert entry.1 yields, true)
  else (yields, false)

/-- What a table has under a name, or the empty set. -/
def Table.get (table : Table) (name : Chars) : Finset Chars := (table name).getD ∅

/-- What `func` gets of `t` in one of the tables. -/
def mergeCallee (func t : Chars) (table : Table) : Table × Bool :=
  if table.get t ⊆ table.get func then (Function.update table func (some (table.get func)), false)
  else (Function.update table func (some (table.get func ∪ table.get t)), true)

/-- One callee of the second loop. -/
def propagate (yields : Finset Chars) (func : Chars) (s : Table × Table) (t : Chars) :
    (Table × Table) × Bool :=
  if t ∈ yields ∨ s.1 t = none then (s, false)
  else (((mergeCallee func t s.1).1, (mergeCallee func t s.2).1),
    (mergeCallee func t s.1).2 || (mergeCallee func t s.2).2)

def propagateAll (order : SetOrder) (yields : Finset Chars) (s : Table × Table)
    (entry : Chars × Finset Chars) : (Table × Table) × Bool :=
  sweep (propagate yields entry.1) s (order.items entry.1 entry.2)

structure SpinTables where
  yields : Finset Chars
  reads : Table
  writes : Table

/-- What `main` knows of the functions before it looks at their loops. -/
def spinTables (order : SetOrder) (funcs : List ParsedFunc) (fuel : Nat) : Option SpinTables :=
  let calls := callDict funcs
  (whileChanged (fun yields => sweep markYield yields calls) fuel yieldPoints).bind fun yields =>
    (whileChanged (fun s => sweep (propagateAll order yields) s calls) fuel
      (directTable directReads funcs, directTable directWrites funcs)).map fun s =>
        ⟨yields, s.1, s.2⟩

/-- The code of a function calls the name. -/
def Calls (funcs : List ParsedFunc) (a b : Chars) : Prop :=
  ∃ f ∈ funcs, f.func = a ∧ b ∈ f.targets

/-- A call that is followed, since what it calls cannot yield. -/
def QuietCall (funcs : List ParsedFunc) (yields : Finset Chars) (a b : Chars) : Prop :=
  Calls funcs a b ∧ b ∉ yields

/-- The table has, for each function, what it and the functions it quietly reaches touch. -/
def TouchesReached (direct : ParsedFunc → Finset Chars) (funcs : List ParsedFunc)
    (yields : Finset Chars) (table : Table) : Prop :=
  ∀ f ∈ funcs, ∃ found, table f.func = some found ∧ ∀ x, x ∈ found ↔
    ∃ g ∈ funcs, ReflTransGen (QuietCall funcs yields) f.func g.func ∧ x ∈ direct g

section

variable {funcs : List ParsedFunc} {yields : Finset Chars} {direct : ParsedFunc → Finset Chars}
  {table : Table} {name func t x : Chars} {f : ParsedFunc}

theorem distinct_snoc (distinct : ((funcs ++ [f]).map ParsedFunc.func).Nodup) :
    (funcs.map ParsedFunc.func).Nodup ∧ f.func ∉ funcs.map ParsedFunc.func := by
  rw [List.map_append, List.nodup_append] at distinct
  obtain ⟨before, -, apart⟩ := distinct
  refine ⟨before, fun here => ?_⟩
  exact apart f.func here f.func (List.mem_singleton_self _) rfl

/-- With distinct names `calls` has an entry for each function, in their order. -/
theorem callDict_eq (distinct : (funcs.map ParsedFunc.func).Nodup) :
    callDict funcs = funcs.map fun f => (f.func, f.targets) := by
  induction funcs using List.reverseRecOn with
  | nil => rfl
  | append_singleton funcs f ih =>
    obtain ⟨before, fresh⟩ := distinct_snoc distinct
    have missing : ¬(funcs.map fun f => (f.func, f.targets)).any fun entry => entry.1 = f.func := by
      intro here
      obtain ⟨entry, listed, same⟩ := List.any_eq_true.mp here
      obtain ⟨g, known, rfl⟩ := List.mem_map.mp listed
      exact fresh (of_decide_eq_true same ▸ List.mem_map_of_mem known)
    unfold callDict at ih ⊢
    rw [List.foldl_append, ih before, List.foldl_cons, List.foldl_nil, CallDict.assign,
      if_neg missing, List.map_append, List.map_cons, List.map_nil]

theorem mem_callDict (distinct : (funcs.map ParsedFunc.func).Nodup)
    {entry : Chars × Finset Chars} :
    entry ∈ callDict funcs ↔ ∃ f ∈ funcs, (f.func, f.targets) = entry := by
  rw [callDict_eq distinct, List.mem_map]

theorem directTable_snoc : directTable direct (funcs ++ [f]) =
    Function.update (directTable direct funcs) f.func (some (direct f)) := by
  unfold directTable
  rw [List.foldl_append, List.foldl_cons, List.foldl_nil]

theorem directTable_none : directTable direct funcs name = none ↔
    name ∉ funcs.map ParsedFunc.func := by
  induction funcs using List.reverseRecOn with
  | nil => simp [directTable]
  | append_singleton funcs f ih =>
    rw [directTable_snoc, Function.update_apply, List.map_append, List.mem_append]
    split
    next same => simp [same]
    next other => simp [ih, other]

theorem directTable_self (distinct : (funcs.map ParsedFunc.func).Nodup) (member : f ∈ funcs) :
    directTable direct funcs f.func = some (direct f) := by
  induction funcs using List.reverseRecOn with
  | nil => exact absurd member List.not_mem_nil
  | append_singleton funcs g ih =>
    obtain ⟨before, fresh⟩ := distinct_snoc distinct
    rw [directTable_snoc, Function.update_apply]
    rcases List.mem_append.mp member with old | new
    · have other : f.func ≠ g.func := fun same => fresh (same ▸ List.mem_map_of_mem old)
      rw [if_neg other, ih before old]
    · rw [List.mem_singleton.mp new, if_pos rfl]

theorem mem_markYield (entry : Chars × Finset Chars) : name ∈ (markYield yields entry).1 ↔
    name ∈ yields ∨ (name = entry.1 ∧ (entry.2 ∩ yields).Nonempty) :=
  mem_insert_ite Iff.rfl

theorem markYield_changed (entry : Chars × Finset Chars) : (markYield yields entry).2 = true ↔
    entry.1 ∉ yields ∧ (entry.2 ∩ yields).Nonempty := changed_ite

/-- The yield points, and what has been found to reach one. -/
structure YieldsHeld (funcs : List ParsedFunc) (yields : Finset Chars) : Prop where
  base : yieldPoints ⊆ yields
  reach : (yields : Set Chars) ⊆ leadsInto (Calls funcs) ↑yieldPoints

theorem markYield_saturates (member : f ∈ funcs) :
    Saturates (YieldsHeld funcs)
      (fun yields => pending (funcs.map ParsedFunc.func).toFinset (· ∈ yields))
      fun yields => markYield yields (f.func, f.targets) := by
  constructor
  · intro yields held
    refine ⟨fun point here => (mem_markYield _).mpr (Or.inl (held.base here)), fun name here => ?_⟩
    rcases (mem_markYield _).mp here with old | ⟨rfl, t, both⟩
    · exact held.reach old
    · obtain ⟨called, marked⟩ := Finset.mem_inter.mp both
      exact leadsInto_step ⟨f, member, rfl, called⟩ (held.reach marked)
  · intro yields held quiet
    unfold markYield at quiet ⊢
    split
    next marked =>
      rw [if_pos marked] at quiet
      exact absurd quiet.symm Bool.false_ne_true
    next => rfl
  · intro yields held changed
    obtain ⟨fresh, calls⟩ := (markYield_changed _).mp changed
    refine pending_lt (x := f.func) ?_ ?_ fresh ?_
    · exact fun name here => (mem_markYield _).mpr (Or.inl here)
    · exact List.mem_toFinset.mpr (List.mem_map_of_mem member)
    · exact (mem_markYield _).mpr (Or.inr ⟨rfl, calls⟩)

/-- The first loop ends with the functions that reach a yield point. -/
theorem yields_exact (distinct : (funcs.map ParsedFunc.func).Nodup) :
    ∃ enough yields, (∀ fuel, enough < fuel →
      whileChanged (fun yields => sweep markYield yields (callDict funcs)) fuel yieldPoints =
        some yields) ∧ (yields : Set Chars) = leadsInto (Calls funcs) ↑yieldPoints := by
  have each : ∀ entry ∈ callDict funcs, Saturates (YieldsHeld funcs)
      (fun yields => pending (funcs.map ParsedFunc.func).toFinset (· ∈ yields))
      fun yields => markYield yields entry := by
    intro entry member
    obtain ⟨f, known, rfl⟩ := (mem_callDict distinct).mp member
    exact markYield_saturates known
  have start : YieldsHeld funcs yieldPoints := ⟨Finset.Subset.refl _, subset_leadsInto⟩
  obtain ⟨yields, held, fixed, ends⟩ := (Saturates.sweep each).terminates start
  refine ⟨_, yields, ends, Set.Subset.antisymm held.reach (leadsInto_subset held.base ?_)⟩
  rintro a b ⟨f, known, rfl, called⟩ inside
  have entry : (f.func, f.targets) ∈ callDict funcs := (mem_callDict distinct).mpr ⟨f, known, rfl⟩
  have quiet := sweep_fixed each held (congrArg Prod.snd fixed) _ entry
  have same := congrArg Prod.fst quiet
  have marked : f.func ∈ (markYield yields (f.func, f.targets)).1 :=
    (mem_markYield _).mpr (Or.inr ⟨rfl, b, Finset.mem_inter.mpr ⟨called, inside⟩⟩)
  rw [same] at marked
  exact marked

theorem get_update (found : Finset Chars) : Table.get (Function.update table func (some found)) name =
    if name = func then found else table.get name := by
  unfold Table.get
  rw [Function.update_apply]
  split
  next => rfl
  next => rfl

/-- Whether or not there was more, the entry is the union. -/
theorem mergeCallee_table : (mergeCallee func t table).1 =
    Function.update table func (some (table.get func ∪ table.get t)) := by
  unfold mergeCallee
  split
  next covered => rw [Finset.union_eq_left.mpr covered]
  next => rfl

theorem mem_mergeCallee : x ∈ (mergeCallee func t table).1.get name ↔
    x ∈ table.get name ∨ (name = func ∧ x ∈ table.get t) := by
  rw [mergeCallee_table, get_update]
  split
  next same => simp [same]
  next other => simp [other]

theorem mergeCallee_quiet :
    (mergeCallee func t table).2 = false ↔ table.get t ⊆ table.get func := by
  unfold mergeCallee
  split
  next covered => exact iff_of_true rfl covered
  next more => exact iff_of_false Bool.noConfusion more

theorem mergeCallee_none : (mergeCallee func t table).1 name = none ↔
    name ≠ func ∧ table name = none := by
  rw [mergeCallee_table, Function.update_apply]
  split
  next same => simp [same]
  next other => simp [other]

/-- What the functions of a name touch themselves. -/
def ownGlobals (direct : ParsedFunc → Finset Chars) (funcs : List ParsedFunc) (name : Chars) :
    Set Chars :=
  {x | ∃ f ∈ funcs, f.func = name ∧ x ∈ direct f}

/-- A table between what the functions touch themselves and what they quietly reach. -/
structure TableHeld (direct : ParsedFunc → Finset Chars) (funcs : List ParsedFunc)
    (yields : Finset Chars) (table : Table) : Prop where
  keys : ∀ name, table name = none ↔ name ∉ funcs.map ParsedFunc.func
  own : ∀ f ∈ funcs, direct f ⊆ table.get f.func
  reach : ∀ name, (table.get name : Set Chars) ⊆
    gathered (QuietCall funcs yields) (ownGlobals direct funcs) name

/-- How many globals of the program the entries of a table have not got. -/
def absent (direct : ParsedFunc → Finset Chars) (funcs : List ParsedFunc) (table : Table) : Nat :=
  pending ((funcs.map ParsedFunc.func).toFinset ×ˢ funcs.toFinset.biUnion direct)
    fun p => p.2 ∈ table.get p.1

theorem TableHeld.known (held : TableHeld direct funcs yields table) (here : x ∈ table.get name) :
    x ∈ funcs.toFinset.biUnion direct := by
  obtain ⟨_, -, g, member, -, touched⟩ := held.reach name here
  exact Finset.mem_biUnion.mpr ⟨g, List.mem_toFinset.mpr member, touched⟩

theorem TableHeld.entry (held : TableHeld direct funcs yields table)
    (defined : name ∈ funcs.map ParsedFunc.func) : table name = some (table.get name) := by
  obtain ⟨found, entry⟩ : ∃ found, table name = some found :=
    Option.ne_none_iff_exists'.mp fun missing => (held.keys name).mp missing defined
  unfold Table.get
  rw [entry, Option.getD_some]

theorem directTable_get (distinct : (funcs.map ParsedFunc.func).Nodup) (member : f ∈ funcs) :
    (directTable direct funcs).get f.func = direct f := by
  unfold Table.get
  rw [directTable_self distinct member, Option.getD_some]

theorem directTable_held (distinct : (funcs.map ParsedFunc.func).Nodup) :
    TableHeld direct funcs yields (directTable direct funcs) := by
  constructor
  · exact fun name => directTable_none
  · exact fun f member => (directTable_get distinct member).ge
  · intro name x here
    by_cases known : name ∈ funcs.map ParsedFunc.func
    · obtain ⟨f, member, rfl⟩ := List.mem_map.mp known
      rw [directTable_get distinct member] at here
      exact own_subset_gathered ⟨f, member, rfl, here⟩
    · unfold Table.get at here
      rw [directTable_none.mpr known] at here
      exact absurd here (by simp)

theorem mergeCallee_saturates (defined : func ∈ funcs.map ParsedFunc.func)
    (edge : QuietCall funcs yields func t) :
    Saturates (TableHeld direct funcs yields) (absent direct funcs) (mergeCallee func t) := by
  constructor
  · intro table held
    constructor
    · intro name
      rw [mergeCallee_none, held.keys]
      refine ⟨And.right, fun missing => ⟨?_, missing⟩⟩
      rintro rfl
      exact missing defined
    · exact fun f member x here => mem_mergeCallee.mpr (Or.inl (held.own f member here))
    · intro name x here
      rcases mem_mergeCallee.mp here with old | ⟨rfl, new⟩
      · exact held.reach name old
      · exact gathered_step edge (held.reach t new)
  · intro table held quiet
    rw [mergeCallee_table, Finset.union_eq_left.mpr (mergeCallee_quiet.mp quiet),
      ← held.entry defined]
    exact Function.update_eq_self func table
  · intro table held changed
    have more : ¬table.get t ⊆ table.get func := by
      rw [← mergeCallee_quiet, changed]
      exact Bool.noConfusion
    obtain ⟨x, theirs, fresh⟩ := Finset.not_subset.mp more
    refine pending_lt (x := (func, x)) ?_ ?_ fresh ?_
    · exact fun p here => mem_mergeCallee.mpr (Or.inl here)
    · exact Finset.mem_product.mpr ⟨List.mem_toFinset.mpr defined, held.known theirs⟩
    · exact mem_mergeCallee.mpr (Or.inr ⟨rfl, theirs⟩)

/-- `reads` and `writes` together. -/
def TablesHeld (funcs : List ParsedFunc) (yields : Finset Chars) (s : Table × Table) : Prop :=
  TableHeld directReads funcs yields s.1 ∧ TableHeld directWrites funcs yields s.2

def absentBoth (funcs : List ParsedFunc) (s : Table × Table) : Nat :=
  absent directReads funcs s.1 + absent directWrites funcs s.2

theorem propagate_saturates (defined : func ∈ funcs.map ParsedFunc.func)
    (called : Calls funcs func t) :
    Saturates (TablesHeld funcs yields) (absentBoth funcs)
      fun s => propagate yields func s t := by
  unfold propagate
  by_cases yielding : t ∈ yields
  · simp only [yielding, true_or, if_true]
    exact ⟨fun _ held => held, fun _ _ _ => rfl, fun _ _ changed => absurd changed Bool.false_ne_true⟩
  · have edge : QuietCall funcs yields func t := ⟨called, yielding⟩
    have reads : Saturates (TableHeld directReads funcs yields) (absent directReads funcs)
        (mergeCallee func t) := mergeCallee_saturates defined edge
    have writes : Saturates (TableHeld directWrites funcs yields) (absent directWrites funcs)
        (mergeCallee func t) := mergeCallee_saturates defined edge
    exact (reads.pair writes).guarded fun s => t ∈ yields ∨ s.1 t = none

theorem propagateAll_saturates (order : SetOrder) (member : f ∈ funcs) :
    Saturates (TablesHeld funcs yields) (absentBoth funcs)
      fun s => propagateAll order yields s (f.func, f.targets) := by
  refine Saturates.sweep fun t listed => ?_
  have called : Calls funcs f.func t := ⟨f, member, rfl, (order.mem_items _ _ _).mp listed⟩
  exact propagate_saturates (List.mem_map_of_mem member) called

/-- What a callee adds nothing to has already what the callee has. -/
theorem propagate_quiet {s : Table × Table} (held : TablesHeld funcs yields s)
    (other : t ∉ yields) (quiet : (propagate yields func s t).2 = false) :
    s.1.get t ⊆ s.1.get func ∧ s.2.get t ⊆ s.2.get func := by
  unfold propagate at quiet
  split at quiet
  next skipped =>
    have missing : s.1 t = none := skipped.resolve_left other
    have missing' : s.2 t = none := (held.2.keys t).mpr ((held.1.keys t).mp missing)
    unfold Table.get
    rw [missing, missing']
    exact ⟨Finset.empty_subset _, Finset.empty_subset _⟩
  next =>
    obtain ⟨first, second⟩ := Bool.or_eq_false_iff.mp quiet
    exact ⟨mergeCallee_quiet.mp first, mergeCallee_quiet.mp second⟩

theorem TableHeld.exact (held : TableHeld direct funcs yields table)
    (closed : ∀ a b, QuietCall funcs yields a b → table.get b ⊆ table.get a) :
    TouchesReached direct funcs yields table := by
  intro f member
  refine ⟨table.get f.func, held.entry (List.mem_map_of_mem member), fun x => ⟨fun here => ?_, ?_⟩⟩
  · obtain ⟨_, path, g, known, rfl, touched⟩ := held.reach f.func here
    exact ⟨g, known, path, touched⟩
  · intro reached
    obtain ⟨g, known, path, touched⟩ := reached
    have base : ∀ a, ownGlobals direct funcs a ⊆ ↑(table.get a) := by
      intro a y here
      obtain ⟨g, known, rfl, touched⟩ := here
      exact held.own g known touched
    exact gathered_subset base closed ⟨g.func, path, g, known, rfl, touched⟩

/-- The second loop ends with what each function and those it quietly reaches touch. -/
theorem tables_exact (distinct : (funcs.map ParsedFunc.func).Nodup) (order : SetOrder)
    (yields : Finset Chars) :
    ∃ enough s, (∀ fuel, enough < fuel →
      whileChanged (fun s => sweep (propagateAll order yields) s (callDict funcs)) fuel
        (directTable directReads funcs, directTable directWrites funcs) = some s) ∧
      TouchesReached directReads funcs yields s.1 ∧
      TouchesReached directWrites funcs yields s.2 := by
  have each : ∀ entry ∈ callDict funcs, Saturates (TablesHeld funcs yields) (absentBoth funcs)
      fun s => propagateAll order yields s entry := by
    intro entry member
    obtain ⟨f, known, rfl⟩ := (mem_callDict distinct).mp member
    exact propagateAll_saturates order known
  have start : TablesHeld funcs yields
      (directTable directReads funcs, directTable directWrites funcs) :=
    ⟨directTable_held distinct, directTable_held distinct⟩
  obtain ⟨s, held, fixed, ends⟩ := (Saturates.sweep each).terminates start
  have closed : ∀ a b, QuietCall funcs yields a b →
      s.1.get b ⊆ s.1.get a ∧ s.2.get b ⊆ s.2.get a := by
    intro a b edge
    obtain ⟨⟨f, known, rfl, called⟩, other⟩ := edge
    have entry : (f.func, f.targets) ∈ callDict funcs := (mem_callDict distinct).mpr ⟨f, known, rfl⟩
    have still := congrArg Prod.snd (sweep_fixed each held (congrArg Prod.snd fixed) _ entry)
    have turns : ∀ t ∈ order.items f.func f.targets, Saturates (TablesHeld funcs yields)
        (absentBoth funcs) fun s => propagate yields f.func s t := fun t listed =>
      propagate_saturates (List.mem_map_of_mem known)
        ⟨f, known, rfl, (order.mem_items _ _ _).mp listed⟩
    have quiet := sweep_fixed turns held still b ((order.mem_items _ _ _).mpr called)
    exact propagate_quiet held other (congrArg Prod.snd quiet)
  exact ⟨_, s, ends, held.1.exact fun a b edge => (closed a b edge).1,
    held.2.exact fun a b edge => (closed a b edge).2⟩

/-- Both loops end, whatever the functions call, with exactly the functions that reach a yield point
and exactly the globals that each function touches without yielding. -/
theorem spinTables_exact (order : SetOrder) (funcs : List ParsedFunc)
    (distinct : (funcs.map ParsedFunc.func).Nodup) :
    ∃ enough result, (∀ fuel, enough < fuel → spinTables order funcs fuel = some result) ∧
      (∀ name, name ∈ result.yields ↔
        ∃ point ∈ yieldPoints, ReflTransGen (Calls funcs) name point) ∧
      TouchesReached directReads funcs result.yields result.reads ∧
      TouchesReached directWrites funcs result.yields result.writes := by
  obtain ⟨enough, yields, ends, exactly⟩ := yields_exact distinct
  obtain ⟨enough', s, ends', reads, writes⟩ := tables_exact distinct order yields
  refine ⟨max enough enough', ⟨yields, s.1, s.2⟩, ?_, ?_, reads, writes⟩
  · intro fuel more
    have first := ends fuel (by omega)
    have second := ends' fuel (by omega)
    simp only [spinTables, first, second, Option.bind_some, Option.map_some]
  · intro name
    exact Set.ext_iff.mp exactly name

end

/-- The callees of each function by name. -/
def nameOrder : SetOrder := ⟨fun _ targets => targets.sort (· ≤ ·), fun _ _ _ => Finset.mem_sort _⟩

/-- A wait on a byte that a leaf reads, next to two functions that call each other and yield. -/
def waitingFuncs : List ParsedFunc :=
  [⟨"func_8008F344".toList, [⟨0, "jal".toList, "func_8008F2D0".toList⟩]⟩,
    ⟨"func_8008F2D0".toList, [⟨4, "lbu".toList, "$v0, %lo(D_800A3D10)($v0)".toList⟩]⟩,
    ⟨"func_80090000".toList, [⟨8, "jal".toList, "func_80090010".toList⟩]⟩,
    ⟨"func_80090010".toList, [⟨12, "jal".toList, "func_80090000".toList⟩,
      ⟨16, "jal".toList, "osRecvMesg".toList⟩]⟩]

theorem spinTables_waitingFuncs :
    ∃ enough result, (∀ fuel, enough < fuel → spinTables nameOrder waitingFuncs fuel = some result) ∧
      (∀ name, name ∈ result.yields ↔
        ∃ point ∈ yieldPoints, ReflTransGen (Calls waitingFuncs) name point) ∧
      TouchesReached directReads waitingFuncs result.yields result.reads ∧
      TouchesReached directWrites waitingFuncs result.yields result.writes :=
  spinTables_exact nameOrder waitingFuncs (by decide +kernel)

end Rayman2Recomp
