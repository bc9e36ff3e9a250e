import Rayman2Recomp.PakImage
import Mathlib.Data.Fintype.Basic

open BlockArray Disk Runs

namespace Rayman2Recomp

/-- `g_dir`, `g_pak`, `g_loaded`, `g_dirty` and the disk under them. A port's
image means nothing until the port is loaded. -/
structure PakStore where
  dir : String
  pak : Fin 4 → Image
  loaded : Fin 4 → Bool
  dirty : Fin 4 → Bool
  files : Files

/-- The store as the process starts, before `set_storage_directory`. -/
def PakStore.start (files : Files) : PakStore :=
  ⟨"", fun _ _ => 0, fun _ => false, fun _ => false, files⟩

/-- What the system answers while a port is loaded, or created when it cannot be. -/
structure LoadOutcome where
  read : ReadOutcome
  write : WriteOutcome

def pakPath (dir : String) (port : Fin 4) : FsPath :=
  ⟨dir, "controller_pak_" ++ toString (port.val + 1) ++ ".pak"⟩

/-- `read_from_disk`: the image a file gives when it is there, opens, and all
32 KiB of it are read. -/
def readPak (files : Files) (path : FsPath) (o : ReadOutcome) : Option Image :=
  if files.exists path o then
    match files.openRead path o with
    | some contents =>
      let got := readBytes contents kPakSize o
      if got.length = kPakSize then some (imageOf got) else none
    | none => none
  else none

def PakStore.install (s : PakStore) (port : Fin 4) (m : Image) (files : Files) : PakStore :=
  { s with
    pak := Function.update s.pak port m
    loaded := Function.update s.loaded port true
    dirty := Function.update s.dirty port false
    files := files }

def ensureLoaded (s : PakStore) (port : Fin 4) (o : LoadOutcome) : PakStore :=
  if s.loaded port then s
  else
    match if s.dir.isEmpty then none else readPak s.files (pakPath s.dir port) o.read with
    | some m => s.install port m s.files
    | none =>
      s.install port formatEmpty
        (if s.dir.isEmpty then s.files
        else (s.files.rewriteFile (pakPath s.dir port) (imageBytes formatEmpty) o.write).getD s.files)

def setStorageDirectory (s : PakStore) (dir : String) : PakStore := { s with dir := dir }

def present (port : Fin 4) : Bool := port.val == 0

/-- The range check both block functions start with. -/
def blockAddress (port block : Int) : Option (Fin 4 × Fin kBlockCount) :=
  if h : port < 0 ∨ port ≥ 4 ∨ block < 0 ∨ block ≥ kBlockCount then none
  else some (⟨port.toNat, by omega⟩, ⟨block.toNat, by omega⟩)

/-- `none` is the `false` returned for an out-of-range port or block. -/
def readBlock (s : PakStore) (port block : Int) (o : LoadOutcome) : Option Block × PakStore :=
  match blockAddress port block with
  | none => (none, s)
  | some (p, b) =>
    let s := ensureLoaded s p o
    (some (blockAt (s.pak p) b), s)

def writeBlock (s : PakStore) (port block : Int) (data : Block) (o : LoadOutcome) :
    Bool × PakStore :=
  match blockAddress port block with
  | none => (false, s)
  | some (p, b) =>
    let s := ensureLoaded s p o
    if blockAt (s.pak p) b ≠ data then
      (true, { s with
        pak := Function.update s.pak p (setBlock (s.pak p) b data)
        dirty := Function.update s.dirty p true })
    else (true, s)

def flushPort (s : PakStore) (port : Fin 4) (o : WriteOutcome) : PakStore :=
  if !s.loaded port || !s.dirty port then s
  else
    match s.files.rewriteFile (pakPath s.dir port) (imageBytes (s.pak port)) o with
    | none => s
    | some files => { s with files := files, dirty := Function.update s.dirty port false }

def flush (s : PakStore) (o : Fin 4 → WriteOutcome) : PakStore :=
  if s.dir.isEmpty then s else (List.finRange 4).foldl (fun s port => flushPort s port (o port)) s

/-- The calls made on the store once its directory is set. -/
inductive Access
  | readBlock (port block : Int) (o : LoadOutcome)
  | writeBlock (port block : Int) (data : Block) (o : LoadOutcome)
  | flush (o : Fin 4 → WriteOutcome)

def access (s : PakStore) : Access → PakStore
  | .readBlock port block o => (readBlock s port block o).2
  | .writeBlock port block data o => (writeBlock s port block data o).2
  | .flush o => flush s o

theorem pakPath_injective {d e : String} {p q : Fin 4} (h : pakPath d p = pakPath e q) :
    d = e ∧ p = q := by
  obtain ⟨parent, name⟩ := FsPath.mk.inj h
  have names : ∀ p q : Fin 4, "controller_pak_" ++ toString (p.val + 1) ++ ".pak" =
      "controller_pak_" ++ toString (q.val + 1) ++ ".pak" → p = q := by decide
  exact ⟨parent, names p q name⟩

end Rayman2Recomp
