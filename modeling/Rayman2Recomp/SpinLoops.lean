import Rayman2Recomp.LinkSyms
import Rayman2Recomp.Saturation
import Mathlib.Data.Finset.Lattice.Basic
import Mathlib.Order.Bounds.Basic

open Saturation

namespace Rayman2Recomp

/-- An instruction as `parse` reads it: its address, mnemonic and operands. -/
structure Insn where
  vram : Nat
  mnem : Chars
  ops : Chars
deriving DecidableEq

def isRegChar (c : Char) : Bool := ('a' ≤ c && c ≤ 'z') || c.isDigit

/-- `REG.findall` -/
def regNames : Chars → List Chars
  | [] => []
  | c :: rest =>
    if c = '$' ∧ rest.takeWhile isRegChar ≠ [] then rest.takeWhile isRegChar :: regNames rest
    else regNames rest

/-- `STORE_MNEM` -/
def isStoreMnem (mnem : Chars) : Bool :=
  ["sb", "sh", "sw", "sd", "swl", "swr", "sc", "sdc1", "swc1"].any fun s => s.toList = mnem

/-- `BRANCH_MNEM`. `otherWord` tells the word characters past ASCII. -/
def isBranchMnem (otherWord : Char → Bool) (mnem : Chars) : Bool :=
  match mnem with
  | 'b' :: rest => rest.all fun c => isNameChar c || (128 ≤ c.toNat && otherWord c)
  | _ => ["j", "jr", "jal", "jalr"].any fun s => s.toList = mnem

def zeroReg : Chars := "zero".toList

/-- The register an instruction defines and those it uses. -/
def defUse (otherWord : Char → Bool) (mnem ops : Chars) : Option Chars × List Chars :=
  let regs := regNames ops
  if mnem = "jal".toList ∨ mnem = "jalr".toList then (some "v0".toList, regs)
  else if isStoreMnem mnem ∨ isBranchMnem otherWord mnem ∨ mnem = "nop".toList then (none, regs)
  else
    match regs with
    | [] => (none, [])
    | d :: uses => (some d, uses)

section

variable (otherWord : Char → Bool)

def Insn.defines (e : Insn) : Option Chars := (defUse otherWord e.mnem e.ops).1

def Insn.uses (e : Insn) : List Chars := (defUse otherWord e.mnem e.ops).2

/-- One instruction of the first loop, over `written` and `loop_carried`. -/
def carry (s : Finset Chars × Finset Chars) (e : Insn) : Finset Chars × Finset Chars :=
  ((e.defines otherWord).elim s.1 (insert · s.1),
    s.2 ∪ ((e.uses otherWord).filter fun u => u ∉ s.1 ∧ u ≠ zeroReg).toFinset)

def loopCarried (span : List Insn) : Finset Chars :=
  let s := span.foldl (carry otherWord) (∅, ∅)
  s.2 ∩ s.1

def lastBranch (span : List Insn) : Option Insn :=
  span.reverse.find? fun e => isBranchMnem otherWord e.mnem

/-- The registers the branch tests. -/
def tested (branch : Insn) : Finset Chars :=
  ((branch.uses otherWord).filter fun u => u ≠ zeroReg).toFinset

/-- One used register of the backward walk. -/
def addDep (deps : Finset Chars) (u : Chars) : Finset Chars × Bool :=
  if u ≠ zeroReg ∧ u ∉ deps then (insert u deps, true) else (deps, false)

/-- One instruction of it. -/
def walkInsn (deps : Finset Chars) (e : Insn) : Finset Chars × Bool :=
  if (e.defines otherWord).any (· ∈ deps) then sweep addDep deps (e.uses otherWord) else (deps, false)

/-- `deps` when the passes over the span are done. -/
def dependencies (span : List Insn) (branch : Insn) : Finset Chars :=
  forPasses (fun deps => sweep (walkInsn otherWord) deps span) span.length (tested otherWord branch)

def loopMakesProgress (span : List Insn) : Bool :=
  match lastBranch otherWord span with
  | none => true
  | some branch =>
    if tested otherWord branch = ∅ then true
    else dependencies otherWord span branch ∩ loopCarried otherWord span ≠ ∅

/-- The span reads the register before it writes it, and writes it. -/
def LoopCarried (span : List Insn) (r : Chars) : Prop :=
  (∃ before e after, span = before ++ e :: after ∧ r ∈ e.uses otherWord ∧
    ∀ e' ∈ before, e'.defines otherWord ≠ some r) ∧ ∃ e ∈ span, e.defines otherWord = some r

/-- What defines a register of the set has its used registers in it. -/
def DependencyClosed (span : List Insn) (regs : Set Chars) : Prop :=
  ∀ e ∈ span, ∀ d, e.defines otherWord = some d → d ∈ regs →
    ∀ u ∈ e.uses otherWord, u ≠ zeroReg → u ∈ regs

def dependencySets (span : List Insn) (branch : Insn) : Set (Set Chars) :=
  {regs | (∀ u ∈ branch.uses otherWord, u ≠ zeroReg → u ∈ regs) ∧
    DependencyClosed otherWord span regs}

variable {otherWord} {span : List Insn} {branch e : Insn} {deps : Finset Chars} {r u : Chars}

theorem mem_carry_written (s : Finset Chars × Finset Chars) (e : Insn) :
    r ∈ (carry otherWord s e).1 ↔ r ∈ s.1 ∨ e.defines otherWord = some r := by
  unfold carry
  cases e.defines otherWord with
  | none => simp
  | some d => simp [or_comm, eq_comm]

theorem mem_carry_read (s : Finset Chars × Finset Chars) (e : Insn) :
    r ∈ (carry otherWord s e).2 ↔ r ∈ s.2 ∨ (r ∈ e.uses otherWord ∧ r ∉ s.1 ∧ r ≠ zeroReg) := by
  unfold carry
  rw [Finset.mem_union, List.mem_toFinset, List.mem_filter, decide_eq_true_iff]

theorem mem_written (done : List Insn) :
    r ∈ (done.foldl (carry otherWord) (∅, ∅)).1 ↔ ∃ e ∈ done, e.defines otherWord = some r := by
  induction done using List.reverseRecOn with
  | nil => simp
  | append_singleton done e ih =>
    rw [List.foldl_append, List.foldl_cons, List.foldl_nil, mem_carry_written, ih]
    simp only [List.mem_append, List.mem_singleton, or_and_right, exists_or, exists_eq_left]

theorem mem_read_first (done : List Insn) :
    r ∈ (done.foldl (carry otherWord) (∅, ∅)).2 ↔ r ≠ zeroReg ∧
      ∃ before e after, done = before ++ e :: after ∧ r ∈ e.uses otherWord ∧
        ∀ e' ∈ before, e'.defines otherWord ≠ some r := by
  induction done using List.reverseRecOn with
  | nil => simp
  | append_singleton done e ih =>
    have unwritten : r ∉ (done.foldl (carry otherWord) (∅, ∅)).1 ↔
        ∀ e' ∈ done, e'.defines otherWord ≠ some r := by
      rw [mem_written]
      push Not
      rfl
    rw [List.foldl_append, List.foldl_cons, List.foldl_nil, mem_carry_read, ih, unwritten]
    constructor
    · intro here
      rcases here with ⟨other, before, e', after, rfl, used, fresh⟩ | ⟨used, fresh, other⟩
      · exact ⟨other, before, e', after ++ [e], by simp, used, fresh⟩
      · exact ⟨other, done, e, [], rfl, used, fresh⟩
    · intro here
      obtain ⟨other, before, e', after, split, used, fresh⟩ := here
      rcases List.eq_nil_or_concat after with rfl | ⟨init, last, rfl⟩
      · obtain ⟨rfl, same⟩ := List.append_inj' split rfl
        obtain rfl := List.singleton_inj.mp same
        exact Or.inr ⟨used, fresh, other⟩
      · rw [List.concat_eq_append, ← List.cons_append, ← List.append_assoc] at split
        obtain ⟨rfl, -⟩ := List.append_inj' split rfl
        exact Or.inl ⟨other, before, e', init, rfl, used, fresh⟩

theorem mem_loopCarried :
    r ∈ loopCarried otherWord span ↔ r ≠ zeroReg ∧ LoopCarried otherWord span r := by
  unfold loopCarried LoopCarried
  rw [Finset.mem_inter, mem_read_first, mem_written, and_assoc]

theorem mem_tested : r ∈ tested otherWord branch ↔ r ∈ branch.uses otherWord ∧ r ≠ zeroReg := by
  unfold tested
  rw [List.mem_toFinset, List.mem_filter, decide_eq_true_iff]

theorem mem_addDep : r ∈ (addDep deps u).1 ↔ r ∈ deps ∨ (r = u ∧ u ≠ zeroReg) :=
  mem_insert_ite and_comm

theorem addDep_changed : (addDep deps u).2 = true ↔ u ≠ zeroReg ∧ u ∉ deps := changed_ite

theorem mem_addDeps (uses : List Chars) :
    r ∈ (sweep addDep deps uses).1 ↔ r ∈ deps ∨ (r ∈ uses ∧ r ≠ zeroReg) := by
  induction uses using List.reverseRecOn with
  | nil => simp [sweep]
  | append_singleton uses u ih =>
    rw [sweep_snoc, mem_addDep, ih, List.mem_append, List.mem_singleton, or_and_right, or_assoc]
    have same : r = u ∧ u ≠ zeroReg ↔ r = u ∧ r ≠ zeroReg :=
      and_congr_right fun here => by rw [here]
    rw [same]

theorem addDeps_changed (uses : List Chars) :
    (sweep addDep deps uses).2 = true ↔ ∃ u ∈ uses, u ≠ zeroReg ∧ u ∉ deps := by
  induction uses using List.reverseRecOn with
  | nil => simp [sweep]
  | append_singleton uses u ih =>
    rw [sweep_snoc, Bool.or_eq_true_iff, ih, addDep_changed, mem_addDeps]
    simp only [List.mem_append, List.mem_singleton]
    constructor
    · intro here
      rcases here with ⟨u', member, new⟩ | ⟨other, fresh⟩
      · exact ⟨u', Or.inl member, new⟩
      · exact ⟨u, Or.inr rfl, other, fun old => fresh (Or.inl old)⟩
    · intro here
      obtain ⟨u', member | rfl, other, fresh⟩ := here
      · exact Or.inl ⟨u', member, other, fresh⟩
      · by_cases member : u' ∈ uses
        · exact Or.inl ⟨u', member, other, fresh⟩
        · exact Or.inr ⟨other, fun here => here.elim fresh fun later => member later.1⟩

theorem addDeps_still {uses : List Chars} (quiet : (sweep addDep deps uses).2 = false) :
    (sweep addDep deps uses).1 = deps := by
  ext r
  rw [mem_addDeps]
  refine ⟨?_, Or.inl⟩
  intro here
  rcases here with old | ⟨used, other⟩
  · exact old
  · by_contra fresh
    have changed := (addDeps_changed uses).mpr ⟨r, used, other, fresh⟩
    rw [quiet] at changed
    exact absurd changed Bool.false_ne_true

/-- The registers an instruction uses are all there. -/
def Served (otherWord : Char → Bool) (deps : Finset Chars) (e : Insn) : Prop :=
  ∀ u ∈ e.uses otherWord, u ≠ zeroReg → u ∈ deps

instance : DecidablePred (Served otherWord deps) := fun e =>
  inferInstanceAs (Decidable (∀ u ∈ e.uses otherWord, u ≠ zeroReg → u ∈ deps))

theorem walkInsn_quiet : (walkInsn otherWord deps e).2 = false ↔
    ∀ d, e.defines otherWord = some d → d ∈ deps → Served otherWord deps e := by
  unfold walkInsn Served
  rw [Bool.eq_false_iff, ne_eq]
  cases e.defines otherWord with
  | none => simp
  | some d =>
    by_cases known : d ∈ deps
    · simp only [Option.any_some, known, decide_true, if_true, addDeps_changed]
      push Not
      constructor
      · intro served d' _ _ u used other
        exact served u used other
      · intro served u used other
        exact served d rfl known u used other
    · simp [known]

/-- The tested registers and what they depend on so far. -/
structure WalkHeld (otherWord : Char → Bool) (span : List Insn) (branch : Insn)
    (deps : Finset Chars) : Prop where
  base : tested otherWord branch ⊆ deps
  needed : ∀ regs ∈ dependencySets otherWord span branch, ↑deps ⊆ regs

theorem WalkHeld.walkInsn (held : WalkHeld otherWord span branch deps) (member : e ∈ span) :
    WalkHeld otherWord span branch (walkInsn otherWord deps e).1 := by
  unfold Rayman2Recomp.walkInsn
  split
  next found =>
    obtain ⟨d, defined, known⟩ := (Option.any_eq_true _ _).mp found
    have here : d ∈ deps := of_decide_eq_true known
    constructor
    · exact fun r base => (mem_addDeps _).mpr (Or.inl (held.base base))
    · intro regs closed r added
      rcases (mem_addDeps _).mp added with old | ⟨used, other⟩
      · exact held.needed regs closed old
      · exact closed.2 e member d defined (held.needed regs closed here) r used other
  next => exact held

theorem walkInsn_saturates (member : e ∈ span) :
    Saturates (WalkHeld otherWord span branch)
      (fun deps => pending span.toFinset (Served otherWord deps))
      fun deps => walkInsn otherWord deps e := by
  constructor
  · exact fun deps held => held.walkInsn member
  · intro deps held quiet
    unfold walkInsn at quiet ⊢
    split
    next found =>
      rw [if_pos found] at quiet
      exact addDeps_still quiet
    next => rfl
  · intro deps held changed
    unfold walkInsn at changed ⊢
    split
    next found =>
      rw [if_pos found] at changed
      obtain ⟨u, used, other, fresh⟩ := (addDeps_changed _).mp changed
      refine pending_lt (x := e) ?_ (List.mem_toFinset.mpr member) ?_ ?_
      · intro e' served u' used' other'
        exact (mem_addDeps _).mpr (Or.inl (served u' used' other'))
      · exact fun served => fresh (served u used other)
      · exact fun u' used' other' => (mem_addDeps _).mpr (Or.inr ⟨used', other'⟩)
    next missing =>
      rw [if_neg missing] at changed
      exact absurd changed Bool.false_ne_true

/-- The passes are enough: each that adds a register serves an instruction it had not served. -/
theorem dependencies_held (otherWord : Char → Bool) (span : List Insn) (branch : Insn) :
    WalkHeld otherWord span branch (dependencies otherWord span branch) ∧
      sweep (walkInsn otherWord) (dependencies otherWord span branch) span =
        (dependencies otherWord span branch, false) := by
  have start : WalkHeld otherWord span branch (tested otherWord branch) := by
    refine ⟨Finset.Subset.refl _, fun regs closed r here => ?_⟩
    obtain ⟨used, other⟩ := mem_tested.mp here
    exact closed.1 r used other
  have enough : pending span.toFinset (Served otherWord (tested otherWord branch)) ≤ span.length :=
    (pending_le _ _).trans (List.toFinset_card_le span)
  exact (Saturates.sweep fun e member => walkInsn_saturates member).forPasses start enough

theorem dependencies_least (otherWord : Char → Bool) (span : List Insn) (branch : Insn) :
    IsLeast (dependencySets otherWord span branch)
      (↑(dependencies otherWord span branch) : Set Chars) := by
  obtain ⟨held, fixed⟩ := dependencies_held otherWord span branch
  have each : ∀ e ∈ span, Saturates (WalkHeld otherWord span branch)
      (fun deps => pending span.toFinset (Served otherWord deps))
      fun deps => walkInsn otherWord deps e := fun e member => walkInsn_saturates member
  have quiet := sweep_fixed each held (congrArg Prod.snd fixed)
  refine ⟨⟨fun u used other => held.base (mem_tested.mpr ⟨used, other⟩), ?_⟩, held.needed⟩
  intro e member d defined known u used other
  have still := congrArg Prod.snd (quiet e member)
  exact walkInsn_quiet.mp still d defined known u used other

/-- The walk ends with the least set of registers the branch depends on, and the answer is whether
one of them is carried round the loop. -/
theorem loopMakesProgress_iff (otherWord : Char → Bool) (span : List Insn) (branch : Insn)
    (last : lastBranch otherWord span = some branch)
    (tests : ∃ u ∈ branch.uses otherWord, u ≠ zeroReg) :
    sweep (walkInsn otherWord) (dependencies otherWord span branch) span =
        (dependencies otherWord span branch, false) ∧
      IsLeast (dependencySets otherWord span branch)
        (↑(dependencies otherWord span branch) : Set Chars) ∧
      (loopMakesProgress otherWord span = true ↔
        ∃ r ∈ dependencies otherWord span branch, LoopCarried otherWord span r) := by
  have least := dependencies_least otherWord span branch
  refine ⟨(dependencies_held otherWord span branch).2, least, ?_⟩
  have nonzero : zeroReg ∉ dependencies otherWord span branch := by
    intro here
    have others : {r | r ≠ zeroReg} ∈ dependencySets otherWord span branch :=
      ⟨fun _ _ other => other, fun _ _ _ _ _ _ _ other => other⟩
    exact least.2 others here rfl
  have some_tested : tested otherWord branch ≠ ∅ := by
    obtain ⟨u, used, other⟩ := tests
    exact Finset.ne_empty_of_mem (mem_tested.mpr ⟨used, other⟩)
  unfold loopMakesProgress
  rw [last]
  simp only [if_neg some_tested, decide_eq_true_eq]
  rw [← Finset.nonempty_iff_ne_empty]
  constructor
  · intro here
    obtain ⟨r, both⟩ := here
    obtain ⟨needed, carried⟩ := Finset.mem_inter.mp both
    exact ⟨r, needed, (mem_loopCarried.mp carried).2⟩
  · intro here
    obtain ⟨r, needed, carried⟩ := here
    have other : r ≠ zeroReg := fun same => nonzero (same ▸ needed)
    exact ⟨r, Finset.mem_inter.mpr ⟨needed, mem_loopCarried.mpr ⟨other, carried⟩⟩⟩

end

/-- A walk along a list: the register the branch tests is loaded from itself. -/
def listWalk : List Insn :=
  [⟨0, "lw".toList, "$s0, 0x14($s0)".toList⟩, ⟨4, "bnez".toList, "$s0, .L80001000".toList⟩,
    ⟨8, "nop".toList, []⟩]

theorem loopMakesProgress_listWalk :
    sweep (walkInsn fun _ => false) (dependencies (fun _ => false) listWalk
        ⟨4, "bnez".toList, "$s0, .L80001000".toList⟩) listWalk =
        (dependencies (fun _ => false) listWalk ⟨4, "bnez".toList, "$s0, .L80001000".toList⟩, false) ∧
      IsLeast (dependencySets (fun _ => false) listWalk
          ⟨4, "bnez".toList, "$s0, .L80001000".toList⟩)
        (↑(dependencies (fun _ => false) listWalk
          ⟨4, "bnez".toList, "$s0, .L80001000".toList⟩) : Set Chars) ∧
      (loopMakesProgress (fun _ => false) listWalk = true ↔
        ∃ r ∈ dependencies (fun _ => false) listWalk ⟨4, "bnez".toList, "$s0, .L80001000".toList⟩,
          LoopCarried (fun _ => false) listWalk r) :=
  loopMakesProgress_iff (fun _ => false) listWalk ⟨4, "bnez".toList, "$s0, .L80001000".toList⟩
    (by decide +kernel) ⟨"s0".toList, by decide +kernel, by decide +kernel⟩

end Rayman2Recomp
