import Rayman2Recomp.MissingFuncs
import Mathlib.Data.Set.Basic

open Disk

namespace Rayman2Recomp

structure Checkout where
  autoFuncs : List Nat
  elf : List ElfSymbol

/-- `refine-syms.sh` from its first of so many rounds on: the exit code, and what
is on disk then. `splitAndBuild` is the pair of scripts a round ends with. -/
def refineSyms (splitAndBuild : List Nat → List ElfSymbol) (rom : Bytes) :
    Nat → Checkout → Nat × Checkout
  | 0, tree => (1, tree)
  | rounds + 1, tree =>
    match genMissingFuncs rom tree.elf with
    | none => (1, tree)
    | some missing =>
      if missing.length = 0 then (0, { tree with autoFuncs := missing })
      else refineSyms splitAndBuild rom rounds ⟨missing, splitAndBuild missing⟩

def Complete (rom : Bytes) (elf : List ElfSymbol) : Prop :=
  ∀ targets, callTargets rom = some targets → ∀ t ∈ targets, t ∈ existingFuncs elf

/-- What is assumed of a split and build: it names the addresses of a fixed set
and those that were declared. -/
def Builds (splitAndBuild : List Nat → List ElfSymbol) (base : Set Nat) : Prop :=
  ∀ declared t, t ∈ existingFuncs (splitAndBuild declared) ↔ t ∈ base ∨ t ∈ declared

variable {splitAndBuild : List Nat → List ElfSymbol} {rom : Bytes} {base : Set Nat}
  {targets : List Nat}

theorem refineSyms_round {rounds : Nat} {tree : Checkout} {missing : List Nat}
    (written : genMissingFuncs rom tree.elf = some missing) :
    refineSyms splitAndBuild rom (rounds + 1) tree =
      if missing.length = 0 then (0, { tree with autoFuncs := missing })
      else refineSyms splitAndBuild rom rounds ⟨missing, splitAndBuild missing⟩ := by
  rw [refineSyms, written]

theorem converged_empty {rounds : Nat} {tree tree' : Checkout}
    (converged : refineSyms splitAndBuild rom rounds tree = (0, tree')) :
    tree'.autoFuncs = [] ∧ ∃ targets, callTargets rom = some targets := by
  induction rounds generalizing tree with
  | zero => simp [refineSyms] at converged
  | succ rounds ih =>
    cases written : genMissingFuncs rom tree.elf with
    | none => simp [refineSyms, written] at converged
    | some missing =>
      rw [refineSyms_round written] at converged
      split at converged
      next none_missing =>
        cases converged
        exact ⟨List.eq_nil_of_length_eq_zero none_missing, genMissingFuncs_scanned written⟩
      next => exact ih converged

/-- A converged tree survives another split and build exactly where the ELF
needed no declaration in the first place. -/
theorem converged_rebuild_iff (splitAndBuild : List Nat → List ElfSymbol) (base : Set Nat)
    (builds : Builds splitAndBuild base) (rom : Bytes) (rounds : Nat) (tree tree' : Checkout)
    (converged : refineSyms splitAndBuild rom rounds tree = (0, tree')) :
    Complete rom (splitAndBuild tree'.autoFuncs) ↔
      ∀ targets, callTargets rom = some targets → ∀ t ∈ targets, t ∈ base := by
  obtain ⟨empty, _⟩ := converged_empty converged
  have symbols : ∀ t, t ∈ existingFuncs (splitAndBuild tree'.autoFuncs) ↔ t ∈ base := by
    intro t
    rw [builds, empty]
    simp
  constructor
  · intro complete targets scanned t mem
    exact (symbols t).mp (complete targets scanned t mem)
  · intro based targets scanned t mem
    exact (symbols t).mpr (based targets scanned t mem)

def nameFunctions (named declared : List Nat) : List ElfSymbol :=
  (named ++ declared).map fun t => ⟨t, "FUNC", funcName t⟩

theorem nameFunctions_builds (named : List Nat) :
    Builds (nameFunctions named) fun t => t ∈ named := by
  have symbols (declared : List Nat) : existingFuncs (nameFunctions named declared) =
      named ++ declared := by
    simp [existingFuncs, nameFunctions, List.filter_map, Function.comp_def, funcName_code]
  intro declared t
  rw [symbols, List.mem_append]
  rfl

def jalRom : Bytes := List.replicate 0x1000 0 ++ [0x0C, 0x00, 0x01, 0x00]

theorem jalRom_targets : callTargets jalRom = some [0x80000400] := by
  have boot : jalRom.drop 0x1000 = [0x0C, 0x00, 0x01, 0x00] :=
    List.drop_left' (List.length_replicate ..)
  have length : jalRom.length = 0x1004 := by
    rw [jalRom, List.length_append, List.length_replicate]
    rfl
  have main : jalRom.drop 0x01DCC0 = [] := List.drop_eq_nil_of_le (by rw [length]; decide)
  have aux : jalRom.drop 0x0C5BF0 = [] := List.drop_eq_nil_of_le (by rw [length]; decide)
  simp [callTargets, codeSegments, segmentTargets, boot, main, aux, unpackWords, wordTarget,
    jalTarget, inCode]

theorem converged_rebuild_jalRom :
    Complete jalRom (nameFunctions [0x80000400] []) ↔
      ∀ targets, callTargets jalRom = some targets → ∀ t ∈ targets, t ∈ [0x80000400] :=
  converged_rebuild_iff (nameFunctions [0x80000400]) (fun t => t ∈ [0x80000400])
    (nameFunctions_builds _) jalRom 1 ⟨[], nameFunctions [0x80000400] []⟩
    ⟨[], nameFunctions [0x80000400] []⟩ (by
      simp [refineSyms, genMissingFuncs, jalRom_targets, nameFunctions, existingFuncs, funcName_code])

/-- The declaration that lets the second round find nothing is gone from disk
after it, and with it, at the next split, the function. -/
theorem rebuild_loses_function :
    ¬ ∀ (splitAndBuild : List Nat → List ElfSymbol) (base : Set Nat), Builds splitAndBuild base →
      ∀ (rom : Bytes) (rounds : Nat) (declared : List Nat) (tree : Checkout),
        refineSyms splitAndBuild rom rounds ⟨declared, splitAndBuild declared⟩ = (0, tree) →
        Complete rom (splitAndBuild tree.autoFuncs) := by
  intro stable
  have complete := stable (nameFunctions []) (fun t => t ∈ []) (nameFunctions_builds []) jalRom 2 []
    ⟨[], nameFunctions [] [0x80000400]⟩ (by
      simp [refineSyms, genMissingFuncs, jalRom_targets, nameFunctions, existingFuncs, funcName_code])
  have named := complete _ jalRom_targets 0x80000400 List.mem_cons_self
  simp [nameFunctions, existingFuncs] at named

/-- Of the targets the base lacks, the ELF has those that were declared at first,
or all but those, as `declared_side` tells. -/
def Covers (base : Set Nat) (targets declared : List Nat) (elf : List ElfSymbol)
    (declared_side : Prop) : Prop :=
  ∀ t ∈ targets, t ∉ base → (t ∈ existingFuncs elf ↔ (t ∈ declared ↔ declared_side))

theorem covers_next (builds : Builds splitAndBuild base) (scanned : callTargets rom = some targets)
    {declared missing : List Nat} {elf : List ElfSymbol} {side : Prop}
    (covers : Covers base targets declared elf side)
    (written : genMissingFuncs rom elf = some missing) :
    Covers base targets declared (splitAndBuild missing) (¬ side) := by
  intro t mem lacking
  have known := covers t mem lacking
  rw [builds, genMissingFuncs_mem scanned written t]
  tauto

theorem missing_zero_iff (scanned : callTargets rom = some targets) {elf : List ElfSymbol}
    {missing : List Nat} (written : genMissingFuncs rom elf = some missing) :
    missing.length = 0 ↔ ∀ t ∈ targets, t ∈ existingFuncs elf := by
  have member := genMissingFuncs_mem scanned written
  rw [List.length_eq_zero_iff, List.eq_nil_iff_forall_not_mem]
  constructor
  · intro nothing t mem
    by_contra lacking
    exact nothing t ((member t).mpr ⟨mem, lacking⟩)
  · intro all t mem
    obtain ⟨target, lacking⟩ := (member t).mp mem
    exact lacking (all t target)

/-- With a target on either side the loop swings between them for good. -/
theorem refine_swings (builds : Builds splitAndBuild base)
    (scanned : callTargets rom = some targets) {declared : List Nat}
    (some_declared : ∃ t ∈ targets, t ∉ base ∧ t ∈ declared)
    (some_left : ∃ t ∈ targets, t ∉ base ∧ t ∉ declared) (rounds : Nat) {tree : Checkout}
    {side : Prop} (covers : Covers base targets declared tree.elf side) :
    (refineSyms splitAndBuild rom rounds tree).1 ≠ 0 := by
  induction rounds generalizing tree side with
  | zero => simp [refineSyms]
  | succ rounds ih =>
    obtain ⟨missing, written⟩ := genMissingFuncs_of_scanned scanned tree.elf
    have lacking : missing.length ≠ 0 := by
      intro none_missing
      have all := (missing_zero_iff scanned written).mp none_missing
      obtain ⟨t, mem, lacking, here⟩ := some_declared
      obtain ⟨u, mem', lacking', absent⟩ := some_left
      have one := (covers t mem lacking).mp (all t mem)
      have other := (covers u mem' lacking').mp (all u mem')
      exact absent (other.mpr (one.mp here))
    rw [refineSyms_round written, if_neg lacking]
    exact ih (covers_next builds scanned covers written)

/-- The loop converges if all targets are named at first, or if none of those
that need a declaration had one. -/
theorem refine_converges_iff (builds : Builds splitAndBuild base)
    (scanned : callTargets rom = some targets) (declared : List Nat) (rounds : Nat) :
    (refineSyms splitAndBuild rom (rounds + 2) ⟨declared, splitAndBuild declared⟩).1 = 0 ↔
      (∀ t ∈ targets, t ∈ base ∨ t ∈ declared) ∨ ∀ t ∈ targets, t ∈ declared → t ∈ base := by
  have start : Covers base targets declared (splitAndBuild declared) True := by
    intro t _ lacking
    rw [builds]
    tauto
  obtain ⟨first, written⟩ := genMissingFuncs_of_scanned scanned (splitAndBuild declared)
  have first_zero : first.length = 0 ↔ ∀ t ∈ targets, t ∈ base ∨ t ∈ declared := by
    rw [missing_zero_iff scanned written]
    exact forall₂_congr fun t _ => builds declared t
  rw [refineSyms_round written]
  by_cases done : first.length = 0
  · rw [if_pos done]
    exact ⟨fun _ => Or.inl (first_zero.mp done), fun _ => rfl⟩
  · rw [if_neg done]
    have after := covers_next builds scanned start written
    obtain ⟨second, written'⟩ := genMissingFuncs_of_scanned scanned (splitAndBuild first)
    have second_zero : second.length = 0 ↔ ∀ t ∈ targets, t ∈ declared → t ∈ base := by
      rw [missing_zero_iff scanned written']
      refine forall₂_congr fun t mem => ?_
      by_cases lacking : t ∈ base
      · rw [builds]
        tauto
      · rw [after t mem lacking]
        tauto
    by_cases converged : second.length = 0
    · rw [refineSyms_round written', if_pos converged]
      exact ⟨fun _ => Or.inr (second_zero.mp converged), fun _ => rfl⟩
    · have some_declared : ∃ t ∈ targets, t ∉ base ∧ t ∈ declared := by
        by_contra nothing
        push Not at nothing
        exact converged (second_zero.mpr fun t mem here => by
          by_contra lacking
          exact nothing t mem lacking here)
      have some_left : ∃ t ∈ targets, t ∉ base ∧ t ∉ declared := by
        by_contra nothing
        push Not at nothing
        exact done (first_zero.mpr fun t mem => by
          by_cases based : t ∈ base
          · exact Or.inl based
          · exact Or.inr (nothing t mem based))
      have swings : (refineSyms splitAndBuild rom (rounds + 1) ⟨first, splitAndBuild first⟩).1 ≠ 0 :=
        refine_swings builds scanned some_declared some_left (rounds + 1) after
      constructor
      · intro exits
        exact absurd exits swings
      · rintro (all | based)
        · exact absurd (first_zero.mpr all) done
        · exact absurd (second_zero.mpr based) converged

end Rayman2Recomp
