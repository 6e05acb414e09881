/-
Directories that are built aside and put in place.

A recovery command reads one directory, builds another one in a temporary place next to its
destination and renames it in the end.  The object storage it fills or reads is either inside the
directory that is built or somewhere else.  Every call is one command of `WorkbenchCommand`; a call
may fail, and then it has no effect.

Two calls do less than the source's.  `openSource` refuses a symbolic link, also where the metadata
is opened with `Connection::open`, which follows one; and `openStorage` creates nothing, where
`FilesystemStorage::open` creates the directories it keeps its files in, which hold no object.

* `Workbench` — the directories and the object storage that a command works with;
* `DirectoryCommand.perform` — what the calls on directories do;
* `Workbench.machine` — all calls, where the object storage is a machine of its own;
* `Workbench.allows` — all calls, where it is a contract; `Workbench.refines` connects the two;
* `filesystemCalls` — all calls, with the filesystem provider;
* `Workbench.meets_directory`, `Workbench.meets_object` — the rules for one call.
-/
import BlobYard.Storage.Namespace

namespace BlobYard

open Outcome FileTree

/-- What stands under a name of a directory, besides another directory. -/
inductive DirectoryFile where
  | regular (content : Bytes)
  | symlink
  deriving DecidableEq

abbrev Directory := Tree (List Char) DirectoryFile

/-- The content of a regular file. -/
def contentOf : Lookup DirectoryFile → Option Bytes
  | .file (.regular content) => some content
  | _ => none

/-- The content of the regular file at a path, which no symbolic link leads to. -/
def regularAt (directory : Directory) (path : StoragePath) : Option Bytes :=
  contentOf (directory.root.lookup path)

/-- What stands at the path that a command is to fill. -/
inductive Destination where
  | absent
  | emptyDirectory
  | occupied
  | activated (directory : Directory)

/-- A directory can be renamed to the path. -/
def Destination.free : Destination → Bool
  | absent => true
  | emptyDirectory => true
  | _ => false

/-- The directory a command reads, the one it builds and the one it is to fill, with the object
storage.  If the object storage is inside the directory that is built, `within` is what it holds in
a new directory. -/
structure Workbench (σ : Type) where
  source : Option Directory
  stage : Option Directory
  destination : Destination
  storage : σ
  within : Option σ

/-- The calls on directories. -/
inductive DirectoryCommand where
  | checkSource
  /-- A regular file of the source; a symbolic link is refused, the metadata's included. -/
  | openSource (path : StoragePath)
  | read (content : Bytes)
  | destinationExists
  | createParent
  | createStage
  | setPermissions
  | createFile (path : StoragePath)
  | writeFile (path : StoragePath) (content : Bytes)
  | openStaged (path : StoragePath)
  /-- The provider, whose empty directories are not modelled. -/
  | openStorage
  | renameStage
  | removeStage

namespace DirectoryCommand

@[reducible] def Value : DirectoryCommand → Type
  | checkSource => Unit
  | openSource _ => Bytes
  | read _ => Bytes
  | destinationExists => Bool
  | createParent => Unit
  | createStage => Unit
  | setPermissions => Unit
  | createFile _ => Unit
  | writeFile _ _ => Unit
  | openStaged _ => Bytes
  | openStorage => Unit
  | renameStage => Unit
  | removeStage => Unit

/-- The failure of a call has no other data. -/
@[reducible] def Response (c : DirectoryCommand) : Type := Except Unit c.Value

variable {σ : Type}

/-- A file of the directory that is built, with the directories above it. -/
def createStaged (path : StoragePath) (content : Bytes) (stage : Directory) :
    Except Failure Directory := do
  let parents ← stage.makeDirs path.dropLast
  parents.create path (.regular content)

/-- The content of a file replaced. -/
def replaceStaged (path : StoragePath) (content : Bytes) (stage : Directory) :
    Except Failure Directory := do
  let removed ← stage.remove path
  removed.create path (.regular content)

/-- The directory that is built, changed where the change succeeds. -/
def restage (s : Workbench σ) (change : Directory → Except Failure Directory) :
    Except Unit Unit × Workbench σ :=
  match s.stage with
  | none => (.error (), s)
  | some stage =>
    match change stage with
    | .ok stage => (.ok (), { s with stage := some stage })
    | .error _ => (.error (), s)

/-- What the calls do. -/
def perform : (c : DirectoryCommand) → Workbench σ → c.Response × Workbench σ
  | checkSource, s => (ensure (s.source.isSome = true) (), s)
  | openSource path, s => (ofOption () (s.source.bind fun d => regularAt d path), s)
  | read content, s => (.ok content, s)
  | destinationExists, s =>
    (.ok (match s.destination with
      | .absent => false
      | _ => true), s)
  | createParent, s => (.ok (), s)
  | createStage, s =>
    (.ok (), { s with stage := some .empty, storage := s.within.getD s.storage })
  | setPermissions, s => (.ok (), s)
  | createFile path, s => restage s (createStaged path [])
  | writeFile path content, s => restage s (replaceStaged path content)
  | openStaged path, s => (ofOption () (s.stage.bind fun d => regularAt d path), s)
  | openStorage, s => (.ok (), s)
  | renameStage, s =>
    match s.stage with
    | some stage =>
      if s.destination.free = true then
        (.ok (), { s with stage := none, destination := .activated stage })
      else (.error (), s)
    | none => (.error (), s)
  | removeStage, s => (.ok (), { s with stage := none, storage := s.within.getD s.storage })

/-- The directory that is built is put in place, or nothing changes. -/
theorem perform_renameStage {s : Workbench σ} {d : Directory} (hstage : s.stage = some d) :
    perform .renameStage s =
      if s.destination.free = true then
        (.ok (), { s with stage := none, destination := .activated d })
      else (.error (), s) := by
  obtain ⟨source, stage, destination, storage, within⟩ := s
  cases hstage
  rfl

/-- The answer of a call that fails. -/
def failed (c : DirectoryCommand) : c.Response := .error ()

end DirectoryCommand

/-- All calls of a command. -/
inductive WorkbenchCommand where
  | directory (c : DirectoryCommand)
  | object (c : ObjectCommand)

@[reducible] def WorkbenchCommand.Response : WorkbenchCommand → Type
  | directory c => c.Response
  | object c => c.Response

/-- A program of calls. -/
abbrev WorkbenchProgram (α : Type) := Program WorkbenchCommand WorkbenchCommand.Response α

namespace Workbench

/-- One call on directories. -/
def onDirectory (c : DirectoryCommand) : WorkbenchProgram c.Response :=
  Program.call (R := WorkbenchCommand.Response) (.directory c)

/-- One call on the object storage. -/
def onObject (c : ObjectCommand) : WorkbenchProgram c.Response :=
  Program.call (R := WorkbenchCommand.Response) (.object c)

variable {σ τ : Type}

/-- The calls, with the object storage as a machine. -/
def machine (m : Machine ObjectCommand ObjectCommand.Response σ) :
    Machine WorkbenchCommand WorkbenchCommand.Response (Workbench σ) where
  perform
    | .directory c, s => c.perform s
    | .object c, s =>
      let answer := m.perform c s.storage
      (answer.1, { s with storage := answer.2 })
  failed
    | .directory c => c.failed
    | .object c => m.failed c

/-- The calls, with the object storage as a contract; a call on directories is performed or it
fails. -/
def allows (k : Contract ObjectCommand ObjectCommand.Response σ) :
    Contract WorkbenchCommand WorkbenchCommand.Response (Workbench σ)
  | .directory c, s, r, t => c.perform s = (r, t) ∨ r = c.failed ∧ t = s
  | .object c, s, r, t => ∃ storage, k c s.storage r storage ∧ t = { s with storage }

/-- The object storage seen through a function. -/
def map (f : σ → τ) (s : Workbench σ) : Workbench τ where
  source := s.source
  stage := s.stage
  destination := s.destination
  storage := f s.storage
  within := s.within.map f

theorem perform_map (f : σ → τ) (c : DirectoryCommand) (s : Workbench σ) :
    c.perform (s.map f) = ((c.perform s).1, (c.perform s).2.map f) := by
  have hstorage : (s.within.map f).getD (f s.storage) = f (s.within.getD s.storage) := by
    cases s.within <;> rfl
  have hrestage (change : Directory → Except Failure Directory) :
      DirectoryCommand.restage (s.map f) change = ((DirectoryCommand.restage s change).1,
        (DirectoryCommand.restage s change).2.map f) := by
    obtain ⟨source, stage, destination, storage, within⟩ := s
    cases stage with
    | none => rfl
    | some stage =>
      simp only [DirectoryCommand.restage, map]
      cases change stage <;> rfl
  cases c with
  | createFile path => exact hrestage _
  | writeFile path content => exact hrestage _
  | createStage => exact congrArg (fun storage => (_, Workbench.mk _ _ _ storage _)) hstorage
  | removeStage => exact congrArg (fun storage => (_, Workbench.mk _ _ _ storage _)) hstorage
  | renameStage =>
    obtain ⟨source, stage, destination, storage, within⟩ := s
    cases stage with
    | none => rfl
    | some stage => cases destination <;> rfl
  | _ => rfl

/-- Where the machine of the object storage does what the contract allows, all calls do. -/
theorem refines {m : Machine ObjectCommand ObjectCommand.Response σ} {f : σ → τ}
    {k : Contract ObjectCommand ObjectCommand.Response τ} (h : m.faulty.Refines f k) :
    (machine m).faulty.Refines (map f) (allows k) := by
  intro c s r t hcall
  cases c with
  | directory c =>
    rcases hcall with hcall | ⟨rfl, rfl⟩
    · refine Or.inl ?_
      rw [perform_map]
      have hperform : c.perform s = (r, t) := hcall
      rw [hperform]
    · exact Or.inr ⟨rfl, rfl⟩
  | object c =>
    rcases hcall with hcall | ⟨rfl, rfl⟩
    · obtain ⟨rfl, rfl⟩ := Prod.mk.inj hcall
      exact ⟨_, h _ _ _ _ (Or.inl rfl), rfl⟩
    · exact ⟨_, h _ _ _ _ (Or.inr ⟨rfl, rfl⟩), rfl⟩

/-! ### The rules for one call -/

variable {k : Contract ObjectCommand ObjectCommand.Response σ} {I : Workbench σ → Prop}
  {s : Workbench σ}

/-- A call on directories: one that is performed keeps the promise, one that fails changes
nothing. -/
theorem meets_directory {c : DirectoryCommand} {P : c.Response → Workbench σ → Prop} (hs : I s)
    (hperform : I (c.perform s).2 ∧ P (c.perform s).1 (c.perform s).2) (hfail : P c.failed s) :
    (onDirectory c).Meets (allows k) I P s := by
  refine ⟨hs, fun r t hcall => ?_⟩
  rcases hcall with hcall | ⟨rfl, rfl⟩
  · obtain ⟨rfl, rfl⟩ := Prod.mk.inj hcall
    exact hperform
  · exact ⟨hs, hfail⟩

/-- A call on the object storage. -/
theorem meets_object {c : ObjectCommand} {P : c.Response → Workbench σ → Prop} (hs : I s)
    (h : ∀ r storage, k c s.storage r storage → I { s with storage } ∧ P r { s with storage }) :
    (onObject c).Meets (allows k) I P s := by
  refine ⟨hs, fun r t hcall => ?_⟩
  obtain ⟨storage, hstorage, rfl⟩ := hcall
  exact h r storage hstorage

end Workbench

/-- The calls of a command that works with the filesystem provider. -/
def filesystemCalls [Digest] :
    Machine WorkbenchCommand WorkbenchCommand.Response (Workbench Filesystem) :=
  Workbench.machine FilesystemStorage.objects

end BlobYard
