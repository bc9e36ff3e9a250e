import Rayman2Recomp.FbToPng
import Rayman2Recomp.Runs

open Disk Runs

namespace Rayman2Recomp

def inputFiles : List String :=
  ["rom.z64", "recomp/rayman2.us.yaml", "recomp/rayman2.us.toml", "recomp/symbol_addrs.txt",
    "recomp/macro.inc"]

def derivedFiles : List String :=
  ["recomp/auto_funcs.txt", "recomp/ignored_syms.txt", "recomp/undefined_syms_auto.txt",
    "recomp/undefined_funcs_auto.txt", "recomp/rayman2.us.ld", "elf/rayman2.us.elf"]

def outputTrees : List String := ["asm", "RecompiledFuncs"]

/-- A file of a tree under its relative path, encoded. -/
structure TreeFile where
  path : Bytes
  content : Bytes

/-- What stands under `ROOT`: no file and no directory is `none`, and a tree's
files come in the order of their paths. -/
structure Pipeline where
  file : String → Option Bytes
  tree : String → Option (List TreeFile)

/-- The object `collect` makes and the manifest holds. -/
structure ManifestState where
  inputs : List (String × Option Bytes)
  derived : List (String × Option Bytes)
  outputs : List (String × (Option Bytes × Nat))

section

-- `hashlib.sha256(...).hexdigest()`
variable (sha256 : Bytes → Bytes)

def hashFile (content : Option Bytes) : Option Bytes := content.map fun b => (sha256 b).take 16

/-- `str(path).replace("\\", "/")`. -/
def shownPath (path : Bytes) : Bytes := path.map fun c => if c = 0x5C then 0x2F else c

/-- What `hash_tree` feeds its hash. -/
def treeStream (files : List TreeFile) : Bytes :=
  files.flatMap fun f => shownPath f.path ++ [0] ++ ((sha256 f.content).take 16 ++ [0])

def hashTree (files : Option (List TreeFile)) : Option Bytes × Nat :=
  match files with
  | none => (none, 0)
  | some files => (some ((sha256 (treeStream sha256 files)).take 16), files.length)

def manifestCollect (w : Pipeline) : ManifestState where
  inputs := inputFiles.map fun rel => (rel, hashFile sha256 (w.file rel))
  derived := derivedFiles.map fun rel => (rel, hashFile sha256 (w.file rel))
  outputs := outputTrees.map fun rel => (rel, hashTree sha256 (w.tree rel))

end

/-- `state["inputs"].get(rel)` and `state["derived"].get(rel)`. -/
def fileHash (entries : List (String × Option Bytes)) (rel : String) : Option Bytes :=
  (entries.lookup rel).join

/-- `(state["outputs"].get(rel) or {}).get("hash")`. -/
def treeHash (entries : List (String × (Option Bytes × Nat))) (rel : String) : Option Bytes :=
  (entries.lookup rel).bind Prod.fst

/-- The names in `changed_inputs` and `changed_outputs`. -/
def manifestDiff (old new : ManifestState) : List String × List String :=
  (inputFiles.filter fun rel => fileHash old.inputs rel ≠ fileHash new.inputs rel,
    (derivedFiles.filter fun rel => fileHash old.derived rel ≠ fileHash new.derived rel) ++
      outputTrees.filter fun rel => treeHash old.outputs rel ≠ treeHash new.outputs rel)

/-- One run of the tool on the manifest it finds: the manifest it leaves and its exit
status. -/
def manifestMain (sha256 : Bytes → Bytes) (argv : List String) (w : Pipeline)
    (manifest : Option ManifestState) : Except PyError (Option ManifestState × Nat) :=
  let action := argv.getD 1 "write"
  let update := argv.contains "--update"
  let state := manifestCollect sha256 w
  if action = "write" then .ok (some state, 0)
  else if action ≠ "check" then
    .error (.systemExit ("usage: " ++ argv.headD "" ++ " [write|check] [--update]"))
  else
    match manifest with
    | none => .ok (none, 0)
    | some old =>
      let changed := manifestDiff old state
      if changed.1 = [] ∧ changed.2 = [] then .ok (some old, 0)
      else if changed.2 ≠ [] ∧ changed.1 = [] then .ok (if update then some state else some old, 1)
      else .ok (if update then some state else some old, 0)

/-- The manifest after one run, which a usage error leaves alone. -/
def manifestStep (sha256 : Bytes → Bytes) (manifest : Option ManifestState)
    (e : List String × Pipeline) : Option ManifestState :=
  match manifestMain sha256 e.1 e.2 manifest with
  | .ok (left, _) => left
  | .error _ => manifest

/-- The pipeline a check compares with: the last one recorded. -/
def baselineStep (baseline : Option Pipeline) (e : List String × Pipeline) : Option Pipeline :=
  if e.1.getD 1 "write" = "write" then some e.2
  else if e.1.getD 1 "write" = "check" ∧ e.1.contains "--update" ∧ baseline.isSome then some e.2
  else baseline

/-- Nothing a check looks at differs. -/
def SameHashes (old new : ManifestState) : Prop :=
  (∀ rel ∈ inputFiles, fileHash old.inputs rel = fileHash new.inputs rel) ∧
    (∀ rel ∈ derivedFiles, fileHash old.derived rel = fileHash new.derived rel) ∧
    ∀ rel ∈ outputTrees, treeHash old.outputs rel = treeHash new.outputs rel

theorem manifestDiff_inputs {old new : ManifestState} :
    (manifestDiff old new).1 = [] ↔
      ∀ rel ∈ inputFiles, fileHash old.inputs rel = fileHash new.inputs rel := by
  rw [manifestDiff, List.filter_eq_nil_iff]
  simp

theorem manifestDiff_outputs {old new : ManifestState} :
    (manifestDiff old new).2 = [] ↔
      (∀ rel ∈ derivedFiles, fileHash old.derived rel = fileHash new.derived rel) ∧
        ∀ rel ∈ outputTrees, treeHash old.outputs rel = treeHash new.outputs rel := by
  rw [manifestDiff, List.append_eq_nil_iff, List.filter_eq_nil_iff, List.filter_eq_nil_iff]
  simp

theorem manifestDiff_same {old new : ManifestState} :
    (manifestDiff old new).1 = [] ∧ (manifestDiff old new).2 = [] ↔ SameHashes old new := by
  rw [manifestDiff_inputs, manifestDiff_outputs, SameHashes]

theorem SameHashes.refl (s : ManifestState) : SameHashes s s :=
  ⟨fun _ _ => rfl, fun _ _ => rfl, fun _ _ => rfl⟩

theorem SameHashes.diff {old old' new : ManifestState} (same : SameHashes old old') :
    manifestDiff old new = manifestDiff old' new := by
  obtain ⟨inputs, derived, outputs⟩ := same
  have first := List.filter_congr (fun rel hr => by rw [inputs rel hr] :
    ∀ rel ∈ inputFiles, (decide (fileHash old.inputs rel ≠ fileHash new.inputs rel)) =
      decide (fileHash old'.inputs rel ≠ fileHash new.inputs rel))
  have second := List.filter_congr (fun rel hr => by rw [derived rel hr] :
    ∀ rel ∈ derivedFiles, (decide (fileHash old.derived rel ≠ fileHash new.derived rel)) =
      decide (fileHash old'.derived rel ≠ fileHash new.derived rel))
  have third := List.filter_congr (fun rel hr => by rw [outputs rel hr] :
    ∀ rel ∈ outputTrees, (decide (treeHash old.outputs rel ≠ treeHash new.outputs rel)) =
      decide (treeHash old'.outputs rel ≠ treeHash new.outputs rel))
  rw [manifestDiff, manifestDiff, first, second, third]

theorem lookup_names {α : Type} {names : List String} {f : String → α} {rel : String}
    (named : rel ∈ names) : (names.map fun name => (name, f name)).lookup rel = some (f rel) := by
  induction names with
  | nil => exact absurd named List.not_mem_nil
  | cons name names ih =>
    rw [List.map_cons, List.lookup_cons]
    by_cases here : rel = name
    · rw [here, beq_self_eq_true]
    · have later := (List.mem_cons.mp named).resolve_left here
      rw [beq_false_of_ne here]
      exact ih later

section

variable {sha256 : Bytes → Bytes} {w : Pipeline} {rel : String}

theorem collect_inputs (named : rel ∈ inputFiles) :
    fileHash (manifestCollect sha256 w).inputs rel = hashFile sha256 (w.file rel) := by
  rw [fileHash, manifestCollect, lookup_names named]
  rfl

theorem collect_derived (named : rel ∈ derivedFiles) :
    fileHash (manifestCollect sha256 w).derived rel = hashFile sha256 (w.file rel) := by
  rw [fileHash, manifestCollect, lookup_names named]
  rfl

theorem collect_outputs (named : rel ∈ outputTrees) :
    treeHash (manifestCollect sha256 w).outputs rel = (hashTree sha256 (w.tree rel)).1 := by
  rw [treeHash, manifestCollect, lookup_names named]
  rfl

/-- The manifest says of the pipeline what the last recording saw. -/
def Follows (sha256 : Bytes → Bytes) (manifest : Option ManifestState)
    (baseline : Option Pipeline) : Prop :=
  match manifest, baseline with
  | none, none => True
  | some old, some b => SameHashes old (manifestCollect sha256 b)
  | _, _ => False

theorem follows_step {manifest : Option ManifestState} {baseline : Option Pipeline}
    (follows : Follows sha256 manifest baseline) (e : List String × Pipeline) :
    Follows sha256 (manifestStep sha256 manifest e) (baselineStep baseline e) := by
  unfold manifestStep baselineStep manifestMain
  simp only
  by_cases write : e.1.getD 1 "write" = "write"
  · rw [if_pos write, if_pos write]
    exact SameHashes.refl _
  rw [if_neg write, if_neg write]
  by_cases check : e.1.getD 1 "write" = "check"
  · rw [if_neg (not_not_intro check)]
    cases manifest with
    | none =>
      cases baseline with
      | none => simp [Follows]
      | some b => exact follows.elim
    | some old =>
      cases baseline with
      | none => exact follows.elim
      | some b =>
        have recorded : SameHashes old (manifestCollect sha256 b) := follows
        simp only [check, Option.isSome_some, and_true, true_and]
        have unchanged := @manifestDiff_same old (manifestCollect sha256 e.2)
        generalize manifestDiff old (manifestCollect sha256 e.2) = changed at unchanged
        by_cases update : e.1.contains "--update" = true
        · rw [if_pos update, if_pos update]
          by_cases same : changed.1 = [] ∧ changed.2 = []
          · rw [if_pos same]
            exact unchanged.mp same
          · rw [if_neg same]
            by_cases moved : changed.2 ≠ [] ∧ changed.1 = []
            · rw [if_pos moved]
              exact SameHashes.refl _
            · rw [if_neg moved]
              exact SameHashes.refl _
        · rw [if_neg update, if_neg update]
          by_cases same : changed.1 = [] ∧ changed.2 = []
          · rw [if_pos same]
            exact recorded
          · rw [if_neg same]
            by_cases moved : changed.2 ≠ [] ∧ changed.1 = []
            · rw [if_pos moved]
              exact recorded
            · rw [if_neg moved]
              exact recorded
  · rw [if_pos check, if_neg (fun h => check h.1)]
    exact follows

theorem follows_run (es : List (List String × Pipeline)) :
    Follows sha256 (run (manifestStep sha256) none es) (run baselineStep none es) := by
  induction es using List.reverseRecOn with
  | nil => trivial
  | append_singleton es e ih =>
    rw [run_snoc, run_snoc]
    exact follows_step ih e

theorem diff_inputs {b : Pipeline} :
    (manifestDiff (manifestCollect sha256 b) (manifestCollect sha256 w)).1 = [] ↔
      ∀ rel ∈ inputFiles, hashFile sha256 (b.file rel) = hashFile sha256 (w.file rel) := by
  rw [manifestDiff_inputs]
  refine forall₂_congr (fun rel named => ?_)
  rw [collect_inputs named, collect_inputs named]

theorem diff_outputs {b : Pipeline} :
    (manifestDiff (manifestCollect sha256 b) (manifestCollect sha256 w)).2 = [] ↔
      (∀ rel ∈ derivedFiles, hashFile sha256 (b.file rel) = hashFile sha256 (w.file rel)) ∧
        ∀ rel ∈ outputTrees, (hashTree sha256 (b.tree rel)).1 = (hashTree sha256 (w.tree rel)).1 := by
  rw [manifestDiff_outputs]
  refine and_congr (forall₂_congr (fun rel named => ?_)) (forall₂_congr (fun rel named => ?_))
  · rw [collect_derived named, collect_derived named]
  · rw [collect_outputs named, collect_outputs named]

/-- The exit status of a check against the manifest it finds. -/
theorem check_status {argv : List String} (check : argv.getD 1 "write" = "check")
    {manifest : Option ManifestState} :
    (∃ left, manifestMain sha256 argv w manifest = .ok (left, 1)) ↔
      ∃ old, manifest = some old ∧ (manifestDiff old (manifestCollect sha256 w)).1 = [] ∧
        (manifestDiff old (manifestCollect sha256 w)).2 ≠ [] := by
  unfold manifestMain
  simp only
  rw [if_neg (by rw [check]; decide), if_neg (not_not_intro check)]
  cases manifest with
  | none => simp
  | some old =>
    simp only [Option.some.injEq, exists_eq_left']
    generalize manifestDiff old (manifestCollect sha256 w) = changed
    by_cases inputs : changed.1 = []
    · by_cases outputs : changed.2 = []
      · simp [inputs, outputs]
      · simp [inputs, outputs]
    · simp [inputs]

/-- A check exits with 1 exactly when, since the last run that recorded, no input
has moved and something derived or built has. -/
theorem check_against_last_recording (es : List (List String × Pipeline)) {argv : List String}
    (check : argv.getD 1 "write" = "check") :
    (∃ left, manifestMain sha256 argv w (run (manifestStep sha256) none es) = .ok (left, 1)) ↔
      ∃ b, run baselineStep none es = some b ∧
        (∀ rel ∈ inputFiles, hashFile sha256 (b.file rel) = hashFile sha256 (w.file rel)) ∧
        ¬((∀ rel ∈ derivedFiles, hashFile sha256 (b.file rel) = hashFile sha256 (w.file rel)) ∧
          ∀ rel ∈ outputTrees,
            (hashTree sha256 (b.tree rel)).1 = (hashTree sha256 (w.tree rel)).1) := by
  have follows := @follows_run sha256 es
  rw [check_status check]
  generalize run (manifestStep sha256) none es = manifest at follows
  generalize run baselineStep none es = baseline at follows
  cases manifest with
  | none =>
    cases baseline with
    | none => simp
    | some b => exact follows.elim
  | some old =>
    cases baseline with
    | none => exact follows.elim
    | some b =>
      have recorded : SameHashes old (manifestCollect sha256 b) := follows
      simp only [Option.some.injEq, exists_eq_left']
      rw [recorded.diff, diff_inputs, Ne, diff_outputs]

end

/-- SHA-256 of no bytes, and of the stream both `slashTree` and `backslashTree` have. -/
def knownDigest (x : Bytes) : Bytes :=
  (if x = [] then "e3b0c44298fc1c149afbf4c8996fb92427ae41e4649b934ca495991b7852b855"
    else "a119874bac150db49c93fcdfd5a0e472d9537787409341a0f360a2cf745a8d5c").toList.map
    fun c => UInt8.ofNat c.toNat

def barePipeline : Pipeline := ⟨fun _ => none, fun _ => none⟩

def splitPipeline : Pipeline := ⟨fun _ => none, fun rel => if rel = "asm" then some [] else none⟩

theorem check_finds_new_tree :
    ∃ left, manifestMain knownDigest ["manifest.py", "check"] splitPipeline
      (run (manifestStep knownDigest) none [(["manifest.py"], barePipeline)]) = .ok (left, 1) := by
  refine (check_against_last_recording [(["manifest.py"], barePipeline)] rfl).mpr
    ⟨barePipeline, rfl, fun _ _ => rfl, fun same => ?_⟩
  have asm := same.2 "asm" (List.mem_cons_self)
  simp [hashTree, barePipeline, splitPipeline] at asm

/-- Fields that end in a separator they do not contain can be told apart again. -/
theorem terminated_cancel {α : Type} {separator : α} {xs ys rest rest' : List α}
    (hx : separator ∉ xs) (hy : separator ∉ ys)
    (same : xs ++ separator :: rest = ys ++ separator :: rest') : xs = ys ∧ rest = rest' := by
  induction xs generalizing ys with
  | nil =>
    cases ys with
    | nil => exact ⟨rfl, (List.cons.inj same).2⟩
    | cons y ys =>
      have first := (List.cons.inj same).1
      exact absurd (first ▸ List.mem_cons_self) hy
  | cons x xs ih =>
    cases ys with
    | nil =>
      have first := (List.cons.inj same).1
      exact absurd (first ▸ List.mem_cons_self) hx
    | cons y ys =>
      obtain ⟨rfl, later⟩ := List.cons.inj same
      have smaller := ih (fun h => hx (List.mem_cons_of_mem x h))
        (fun h => hy (List.mem_cons_of_mem x h)) later
      exact ⟨by rw [smaller.1], smaller.2⟩

section

variable {sha256 : Bytes → Bytes}

/-- Everything of a tree that is hashed. -/
def hashedBytes (sha256 : Bytes → Bytes) (files : List TreeFile) : List Bytes :=
  treeStream sha256 files :: files.map TreeFile.content

/-- Of what was hashed, two different byte strings have one digest. -/
def Collide (sha256 : Bytes → Bytes) (xs ys : List Bytes) : Prop :=
  ∃ x ∈ xs, ∃ y ∈ ys, x ≠ y ∧ (sha256 x).take 16 = (sha256 y).take 16

theorem Collide.mono {xs ys xs' ys' : List Bytes} (left : xs ⊆ xs') (right : ys ⊆ ys')
    (h : Collide sha256 xs ys) : Collide sha256 xs' ys' := by
  obtain ⟨x, hx, y, hy, differ⟩ := h
  exact ⟨x, left hx, y, right hy, differ⟩

theorem shownPath_terminated {path : Bytes} (h : 0 ∉ path) : 0 ∉ shownPath path := by
  intro zero
  obtain ⟨c, hc, shown⟩ := List.mem_map.mp zero
  split at shown
  next => cases shown
  next => exact h (shown ▸ hc)

theorem treeStream_cons (f : TreeFile) (files : List TreeFile) :
    treeStream sha256 (f :: files) =
      shownPath f.path ++ 0 :: ((sha256 f.content).take 16 ++ 0 :: treeStream sha256 files) := by
  simp [treeStream]

/-- Equal streams list equal files, but for files whose contents collide. -/
theorem treeStream_injective (hex : ∀ x, 0 ∉ sha256 x) {a b : List TreeFile}
    (names : ∀ f ∈ a, 0 ∉ f.path) (names' : ∀ f ∈ b, 0 ∉ f.path)
    (same : treeStream sha256 a = treeStream sha256 b) :
    a.map (fun f => (shownPath f.path, f.content)) =
      b.map (fun f => (shownPath f.path, f.content)) ∨
      Collide sha256 (a.map TreeFile.content) (b.map TreeFile.content) := by
  induction a generalizing b with
  | nil =>
    cases b with
    | nil => exact Or.inl rfl
    | cons g b =>
      rw [treeStream_cons] at same
      simp [treeStream] at same
  | cons f a ih =>
    cases b with
    | nil =>
      rw [treeStream_cons] at same
      simp [treeStream] at same
    | cons g b =>
      rw [treeStream_cons, treeStream_cons] at same
      have digit : ∀ x, 0 ∉ (sha256 x).take 16 := fun x h => hex x (List.mem_of_mem_take h)
      obtain ⟨path, same⟩ := terminated_cancel
        (shownPath_terminated (names f List.mem_cons_self))
        (shownPath_terminated (names' g List.mem_cons_self)) same
      obtain ⟨hash, same⟩ := terminated_cancel (digit f.content) (digit g.content) same
      by_cases content : f.content = g.content
      · have later := ih (fun h hh => names h (List.mem_cons_of_mem f hh))
          (fun h hh => names' h (List.mem_cons_of_mem g hh)) same
        rcases later with listed | collision
        · rw [List.map_cons, List.map_cons, listed, path, content]
          exact Or.inl rfl
        · exact Or.inr (collision.mono (List.subset_cons_self _ _) (List.subset_cons_self _ _))
      · exact Or.inr ⟨f.content, List.mem_cons_self, g.content, List.mem_cons_self, content, hash⟩

end

/-- Two trees with one hash are the same files, or two of the byte strings hashed for
them collide. -/
theorem same_hash_same_tree {sha256 : Bytes → Bytes} (hex : ∀ x, 0 ∉ sha256 x)
    {a b : List TreeFile} (names : ∀ f ∈ a, 0 ∉ f.path) (names' : ∀ f ∈ b, 0 ∉ f.path)
    (same : (hashTree sha256 (some a)).1 = (hashTree sha256 (some b)).1) :
    a.map (fun f => (shownPath f.path, f.content)) =
      b.map (fun f => (shownPath f.path, f.content)) ∨
      Collide sha256 (hashedBytes sha256 a) (hashedBytes sha256 b) := by
  by_cases streams : treeStream sha256 a = treeStream sha256 b
  · rcases treeStream_injective hex names names' streams with listed | collision
    · exact Or.inl listed
    · exact Or.inr (collision.mono (List.subset_cons_self _ _) (List.subset_cons_self _ _))
  · exact Or.inr ⟨_, List.mem_cons_self, _, List.mem_cons_self, streams, Option.some.inj same⟩

def slashTree : List TreeFile := [⟨[0x61, 0x2F, 0x62, 0x2E, 0x73], []⟩]

def backslashTree : List TreeFile := [⟨[0x61, 0x5C, 0x62, 0x2E, 0x73], []⟩]

theorem knownDigest_hex (x : Bytes) : 0 ∉ knownDigest x := by
  unfold knownDigest
  split <;> decide +kernel

theorem same_hash_slashTree :
    slashTree.map (fun f => (shownPath f.path, f.content)) =
      backslashTree.map (fun f => (shownPath f.path, f.content)) ∨
      Collide knownDigest (hashedBytes knownDigest slashTree)
        (hashedBytes knownDigest backslashTree) :=
  same_hash_same_tree knownDigest_hex (by decide) (by decide) rfl

end Rayman2Recomp
