/-
The object inventory of the filesystem provider.

`list_object_keys` walks the objects directory with a stack of directories still to be
read, sorts the paths it found and turns each into a storage key.  Paths are sorted
component by component, storage keys compare as texts.

* `collectFiles` — the walk; `collectFiles_perm` says that it meets every file once;
* `listObjectKeys` — the inventory;
* `listObjectKeys_spec` — its keys are those of the stored objects, each once, in the
  order of their paths.
-/
import BlobYard.Storage.Objects
import BlobYard.Lib.Order

namespace BlobYard

open Outcome FileTree

/-- A directory of objects with its path. -/
abbrev ObjectDirectory := StoragePath × Forest (List Char) Bytes

/-- `read_entries`: the entries of a directory by file name. -/
def readEntries (directory : Forest (List Char) Bytes) : List (List Char × Entry (List Char) Bytes) :=
  orderBy Prod.fst directory.entries

/-- `collect_entry`: a directory is pushed on the stack, a file is added to the paths found. -/
def collectEntry (path : StoragePath) (found : List StoragePath × List ObjectDirectory)
    (entry : List Char × Entry (List Char) Bytes) : List StoragePath × List ObjectDirectory :=
  match entry.2 with
  | .dir children => (found.1, (path ++ [entry.1], children) :: found.2)
  | .file _ => (found.1 ++ [path ++ [entry.1]], found.2)

/-- One directory read. -/
theorem foldl_collectEntry (path : StoragePath) (found : List StoragePath × List ObjectDirectory)
    (entries : List (List Char × Entry (List Char) Bytes)) :
    entries.foldl (collectEntry path) found =
      (found.1 ++ (Forest.entryFiles entries).map (fun name => path ++ [name]),
        ((Forest.entryDirs entries).map fun d => (path ++ [d.1], d.2)).reverse ++ found.2) := by
  induction entries generalizing found with
  | nil => simp [Forest.entryFiles, Forest.entryDirs]
  | cons entry entries ih =>
    obtain ⟨name, content | children⟩ := entry
    · rw [List.foldl_cons, ih]
      simp [collectEntry, Forest.entryFiles, Forest.entryDirs]
    · rw [List.foldl_cons, ih]
      simp [collectEntry, Forest.entryFiles, Forest.entryDirs]

/-- The directories still to be read, measured. -/
def pendingSize (directories : List ObjectDirectory) : ℕ :=
  (directories.map fun d => d.2.size).sum

theorem pendingSize_lt (path : StoragePath) (directory : Forest (List Char) Bytes)
    (found : List StoragePath) (directories : List ObjectDirectory) :
    pendingSize ((readEntries directory).foldl (collectEntry path) (found, directories)).2 <
      pendingSize ((path, directory) :: directories) := by
  have hperm : (Forest.entryDirs (readEntries directory)).Perm
      (Forest.entryDirs directory.entries) :=
    (orderBy_perm Prod.fst directory.entries).filterMap _
  have hsum := (hperm.map fun d => d.2.size).sum_eq
  have hlt := Forest.size_entryDirs_lt directory
  rw [foldl_collectEntry, pendingSize, pendingSize]
  simp only [List.map_append, List.map_reverse, List.map_map, List.sum_append, List.sum_reverse,
    List.map_cons, List.sum_cons]
  have hmap : (fun d : ObjectDirectory => d.2.size) ∘
      (fun d : List Char × Forest (List Char) Bytes => (path ++ [d.1], d.2)) =
        fun d => d.2.size := rfl
  rw [hmap, hsum]
  omega

/-- `collect_files`: while a directory is left on the stack, its entries are collected. -/
def collectFiles : List ObjectDirectory → List StoragePath → List StoragePath
  | [], found => found
  | (path, directory) :: directories, found =>
    let collected := (readEntries directory).foldl (collectEntry path) (found, directories)
    collectFiles collected.2 collected.1
termination_by directories => pendingSize directories
decreasing_by exact pendingSize_lt path directory found directories

/-- The files below a directory are those in its entries and those below its sub-directories. -/
private theorem files_perm_readEntries (path : StoragePath) (directory : Forest (List Char) Bytes) :
    (directory.files.map (path ++ ·)).Perm
      ((Forest.entryFiles (readEntries directory)).map (fun name => path ++ [name]) ++
        ((Forest.entryDirs (readEntries directory)).map
          fun d => (path ++ [d.1], d.2)).reverse.flatMap fun d => d.2.files.map (d.1 ++ ·)) := by
  have hread : (readEntries directory).Perm directory.entries :=
    orderBy_perm Prod.fst directory.entries
  have hfiles : (Forest.entryFiles directory.entries).Perm
      (Forest.entryFiles (readEntries directory)) := hread.symm.filterMap _
  have hdirs : (Forest.entryDirs directory.entries).Perm
      (Forest.entryDirs (readEntries directory)) := hread.symm.filterMap _
  have h := (Forest.files_perm_entries directory).map (path ++ ·)
  rw [List.map_append, List.map_map, List.map_flatMap] at h
  refine h.trans ((hfiles.map _).append ?_)
  refine List.Perm.trans ?_ ((List.reverse_perm _).symm.flatMap_right _)
  rw [List.flatMap_map]
  refine (hdirs.flatMap_right _).trans (List.Perm.of_eq ?_)
  simp [List.map_map, Function.comp_def]

/-- The walk meets every file below the directories on the stack once. -/
theorem collectFiles_perm (directories : List ObjectDirectory) (found : List StoragePath) :
    (collectFiles directories found).Perm
      (found ++ directories.flatMap fun d => d.2.files.map (d.1 ++ ·)) := by
  induction directories, found using collectFiles.induct with
  | case1 found => simp [collectFiles]
  | case2 path directory directories found collected ih =>
    have hcollected : collected = _ := foldl_collectEntry path (found, directories) _
    rw [hcollected] at ih
    rw [collectFiles, show (readEntries directory).foldl (collectEntry path) (found, directories) =
      collected from rfl, hcollected]
    refine ih.trans ?_
    rw [List.flatMap_append, List.flatMap_cons, List.append_assoc, ← List.append_assoc (List.map _ _)]
    exact ((files_perm_readEntries path directory).symm.append_right _).append_left found

/-- `key_from_path`. -/
def keyFromPath (path : StoragePath) : Except StorageError StorageKey :=
  StorageKey.new (String.ofList (PathOrder.join '/' path))

/-- `list_object_keys`. -/
def listObjectKeys (fs : Filesystem) : Except StorageError (List StorageKey) :=
  (orderBy id (collectFiles [([], fs.objects.root)] [])).mapM keyFromPath

/-! ### What the inventory lists -/

theorem keyFromPath_path (key : StorageKey) : keyFromPath key.path = .ok key := by
  rw [keyFromPath, key.join_path, String.ofList_toList]
  exact StorageKey.new_eq_ok.mpr rfl

/-- The paths the walk finds are those of the files. -/
theorem collectFiles_root (fs : Filesystem) :
    (collectFiles [([], fs.objects.root)] []).Perm fs.objects.files := by
  refine (collectFiles_perm _ _).trans (List.Perm.of_eq ?_)
  simp [Tree.files]

/-- The storage key holds an object. -/
def Filesystem.Stores (fs : Filesystem) (key : StorageKey) : Prop :=
  ∃ content, fs.objects.fileAt key.path = some content

private theorem exists_keys (paths : List StoragePath)
    (h : ∀ path ∈ paths, ∃ key : StorageKey, key.path = path) :
    ∃ keys : List StorageKey, keys.map StorageKey.path = paths := by
  induction paths with
  | nil => exact ⟨[], rfl⟩
  | cons path paths ih =>
    obtain ⟨key, rfl⟩ := h path List.mem_cons_self
    obtain ⟨keys, rfl⟩ := ih fun p hp => h p (List.mem_cons_of_mem _ hp)
    exact ⟨key :: keys, rfl⟩

/-- The inventory lists the stored keys, each once, in the order of their paths. -/
theorem listObjectKeys_spec (fs : Filesystem) :
    ∃ keys, listObjectKeys fs = .ok keys ∧ (∀ key, key ∈ keys ↔ fs.Stores key) ∧
      (keys.map StorageKey.path).Pairwise (· < ·) := by
  have hfiles : ∀ path, path ∈ orderBy id (collectFiles [([], fs.objects.root)] []) ↔
      ∃ content, fs.objects.fileAt path = some content := by
    intro path
    rw [mem_orderBy, (collectFiles_root fs).mem_iff, Tree.mem_files]
  -- the sorted paths are those of a list of keys, since every file stands under one
  obtain ⟨keys, hkeys⟩ := exists_keys
    (orderBy id (collectFiles [([], fs.objects.root)] [])) fun path hpath => by
      obtain ⟨content, hcontent⟩ := (hfiles path).mp hpath
      exact fs.keyed path content hcontent
  refine ⟨keys, ?_, fun key => ?_, ?_⟩
  · rw [listObjectKeys, ← hkeys]
    exact mapM_map_eq_ok keyFromPath_path keys
  · rw [Filesystem.Stores, ← hfiles, ← hkeys]
    constructor
    · exact List.mem_map_of_mem
    · intro hmem
      obtain ⟨key', hkey', hpath⟩ := List.mem_map.mp hmem
      rwa [← StorageKey.path_injective hpath]
  · rw [hkeys]
    have hnodup : (collectFiles [([], fs.objects.root)] []).Nodup :=
      (collectFiles_root fs).nodup_iff.mpr fs.objects.files_nodup
    exact orderBy_strict hnodup fun _ _ _ _ h => h

end BlobYard
