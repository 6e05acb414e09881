/-
The filesystem storage provider.

Objects and their metadata stand in two directory trees, under the segments of the
storage key; the metadata file carries the suffix `.blobyard-meta`.  A multipart
upload is staged in a directory of its own that holds a `key` file and one file for
each part.  Every system call is one command of `FileCommand`; the operations of the
provider are programs of them, so a stop or a failed call between any two is an
execution of the model.

* `put`, `get`, `head`, `delete` — whole objects, and `getRange` — a part of one;
* `startMultipart`, `storePart`, `finishMultipart`, `cancelMultipart` — staged uploads;
* `provider` — the program behind each command of the storage contract.
-/
import BlobYard.Contract.Storage
import BlobYard.Lib.FileTree
import BlobYard.Lib.PathOrder
import BlobYard.Lib.Program
import BlobYard.Lib.Table

namespace BlobYard

open Outcome FileTree

/-- A path below one of the provider's directories. -/
abbrev StoragePath := List (List Char)

/-- `StoragePaths::object`, below the objects directory. -/
def StorageKey.path (key : StorageKey) : StoragePath := segments key.asStr

/-- `StoragePaths::metadata`, below the metadata directory. -/
def StorageKey.metadataPath (key : StorageKey) : StoragePath :=
  segments (key.asStr ++ ".blobyard-meta")

theorem StorageKey.path_proper (key : StorageKey) : PathOrder.Proper '/' key.path :=
  fun segment h => ⟨(key.valid.2.2.2.2.2.2 segment h).1, PathOrder.not_mem_of_mem_splitOn h⟩

/-- The flat text of a key's path is the key. -/
theorem StorageKey.join_path (key : StorageKey) : PathOrder.join '/' key.path = key.asStr.toList :=
  List.intercalate_splitOn '/'

theorem StorageKey.path_ne_nil (key : StorageKey) : key.path ≠ [] := List.splitOn_ne_nil _ _

theorem StorageKey.path_injective {key key' : StorageKey} (h : key.path = key'.path) :
    key = key' := by
  refine StorageKey.ext (String.toList_inj.mp ?_)
  rw [← key.join_path, ← key'.join_path, h]

theorem StorageKey.metadataPath_ne_nil (key : StorageKey) : key.metadataPath ≠ [] :=
  List.splitOn_ne_nil _ _

theorem StorageKey.metadataPath_injective {key key' : StorageKey}
    (h : key.metadataPath = key'.metadataPath) : key = key' := by
  have htext : ∀ k : StorageKey,
      PathOrder.join '/' k.metadataPath = k.asStr.toList ++ ".blobyard-meta".toList := fun k => by
    rw [StorageKey.metadataPath, segments, PathOrder.join, List.intercalate_splitOn,
      String.toList_append]
  have happ := htext key
  rw [h, htext key'] at happ
  exact StorageKey.ext (String.toList_inj.mp (List.append_cancel_right happ)).symm

/-- Every file stands at the path of a storage key. -/
def Keyed (objects : Tree (List Char) Bytes) : Prop :=
  ∀ path content, objects.fileAt path = some content → ∃ key : StorageKey, key.path = path

theorem Keyed.makeDirs {t t' : Tree (List Char) Bytes} (ht : Keyed t) {path : StoragePath}
    (h : t.makeDirs path = .ok t') : Keyed t' := by
  intro q content hq
  rw [Tree.fileAt_makeDirs h] at hq
  exact ht q content hq

theorem Keyed.create {t t' : Tree (List Char) Bytes} (ht : Keyed t) {key : StorageKey}
    {content : Bytes} (h : t.create key.path content = .ok t') : Keyed t' := by
  intro q content' hq
  rw [Tree.fileAt_create h] at hq
  by_cases heq : q = key.path
  · exact ⟨key, heq.symm⟩
  · rw [if_neg heq] at hq
    exact ht q content' hq

theorem Keyed.remove {t t' : Tree (List Char) Bytes} (ht : Keyed t) {path : StoragePath}
    (h : t.remove path = .ok t') : Keyed t' := by
  intro q content hq
  rw [Tree.fileAt_remove h] at hq
  by_cases heq : q = path
  · rw [if_pos heq] at hq
    cases hq
  · rw [if_neg heq] at hq
    exact ht q content hq

/-- A file of a staging directory. -/
inductive StagedFile where
  | key (key : StorageKey)
  | part (number : ℕ) (content : Bytes)
  deriving DecidableEq

/-- The name of a staged file. -/
inductive StagedName where
  | key
  | part (number : ℕ)
  deriving DecidableEq

def StagedFile.name : StagedFile → StagedName
  | key _ => .key
  | part number _ => .part number

/-- A staging directory; `files` is in the order the directory is read in. -/
structure StagedUpload where
  id : String
  files : Table StagedFile.name
  deriving DecidableEq

/-- A staged file written, replacing the one of its name. -/
def StagedUpload.write (upload : StagedUpload) (file : StagedFile) : StagedUpload :=
  { upload with
    files := ((upload.files.erase fun f => f.name = file.name).insert? file).getD upload.files }

/-- The directories of the provider; it alone writes below the objects directory. -/
structure Filesystem where
  objects : Tree (List Char) Bytes
  keyed : Keyed objects
  metadata : Tree (List Char) StorageMetadata
  multipart : Table StagedUpload.id

/-- `FilesystemStorage::open` on a fresh root. -/
def Filesystem.fresh : Filesystem where
  objects := .empty
  keyed := by
    intro path content h
    cases path <;> cases h
  metadata := .empty
  multipart := .empty

/-! ### System calls -/

/-- The system calls the provider makes, with the errors it maps them to. -/
inductive FileCommand where
  | makeObjectParents (key : StorageKey)
  | persistObject (key : StorageKey) (content : Bytes)
  | removeObject (key : StorageKey)
  | objectLength (key : StorageKey)
  | openObject (key : StorageKey)
  | makeMetadataParents (key : StorageKey)
  | persistMetadata (key : StorageKey) (metadata : StorageMetadata)
  | removeMetadata (key : StorageKey)
  | readMetadata (key : StorageKey)
  | createUpload (id : String)
  | writeKey (id : String) (key : StorageKey)
  | persistPart (id : String) (number : ℕ) (content : Bytes)
  | isUpload (id : String)
  | readKey (id : String)
  | openPart (id : String) (number : ℕ)
  | readUpload (id : String)
  | removeFile (id : String) (name : StagedName)
  | removeUpload (id : String)
  deriving DecidableEq

namespace FileCommand

/-- What each system call returns. -/
@[reducible] def Value : FileCommand → Type
  | makeObjectParents _ => Unit
  | persistObject _ _ => Unit
  | removeObject _ => Unit
  | objectLength _ => Option ℕ
  | openObject _ => Bytes
  | makeMetadataParents _ => Unit
  | persistMetadata _ _ => Unit
  | removeMetadata _ => Unit
  | readMetadata _ => StorageMetadata
  | createUpload _ => Unit
  | writeKey _ _ => Unit
  | persistPart _ _ _ => Unit
  | isUpload _ => Unit
  | readKey _ => StorageKey
  | openPart _ _ => Bytes
  | readUpload _ => List StagedName
  | removeFile _ _ => Unit
  | removeUpload _ => Unit

@[reducible] def Response (c : FileCommand) : Type := Except StorageError c.Value

/-- What a failed system call is reported as. -/
def failure : FileCommand → StorageError
  | persistMetadata _ _ => .conflict
  | isUpload _ => .notFound
  | _ => .unavailable

end FileCommand

/-- `map_io`: a missing file is told apart from every other failure. -/
def mapIo : Failure → StorageError
  | .missing => .notFound
  | .occupied => .conflict
  | .blocked => .unavailable

/-- `map_persist_error`. -/
def mapPersistError : Failure → StorageError
  | .occupied => .conflict
  | .missing => .unavailable
  | .blocked => .unavailable

namespace Filesystem

/-- A tree replaced by the result of an operation on it, or left alone when it fails. -/
def withObjects (fs : Filesystem) (rename : Failure → StorageError)
    (r : Except Failure (Tree (List Char) Bytes)) (keyed : ∀ t, r = .ok t → Keyed t) :
    Except StorageError Unit × Filesystem :=
  match r, keyed with
  | .ok objects, keyed => (.ok (), { fs with objects, keyed := keyed objects rfl })
  | .error e, _ => (.error (rename e), fs)

def withMetadata (fs : Filesystem) (rename : Failure → StorageError)
    (r : Except Failure (Tree (List Char) StorageMetadata)) :
    Except StorageError Unit × Filesystem :=
  match r with
  | .ok metadata => (.ok (), { fs with metadata })
  | .error e => (.error (rename e), fs)

/-- The content of a file. -/
def openFile {γ : Type} (t : Tree (List Char) γ) (path : StoragePath) : Except StorageError γ :=
  match t.root.lookup path with
  | .file content => .ok content
  | .directory => .error .unavailable
  | .missing => .error .notFound
  | .blocked => .error .unavailable

/-- The length of a file; a directory has none. -/
def fileLength (t : Tree (List Char) Bytes) (path : StoragePath) :
    Except StorageError (Option ℕ) :=
  match t.root.lookup path with
  | .file content => .ok (some content.length)
  | .directory => .ok none
  | .missing => .error .notFound
  | .blocked => .error .unavailable

/-- The file a staging directory holds under a name. -/
def stagedFile (fs : Filesystem) (id : String) (name : StagedName) : Option StagedFile :=
  (fs.multipart.find? id).bind fun upload => upload.files.find? name

/-- A staging directory changed. -/
def withUpload (fs : Filesystem) (id : String) (f : StagedUpload → StagedUpload)
    (hf : ∀ upload, (f upload).id = upload.id := by intro _; rfl) : Filesystem :=
  { fs with multipart := fs.multipart.update (fun upload => upload.id = id) f hf }

/-- What each system call does. -/
def perform : (c : FileCommand) → Filesystem → c.Response × Filesystem
  | .makeObjectParents key, fs =>
    fs.withObjects (fun _ => .unavailable) (fs.objects.makeDirs key.path.dropLast)
      fun _ => fs.keyed.makeDirs
  | .persistObject key content, fs =>
    fs.withObjects mapPersistError (fs.objects.create key.path content) fun _ => fs.keyed.create
  | .removeObject key, fs =>
    fs.withObjects mapIo (fs.objects.remove key.path) fun _ => fs.keyed.remove
  | .objectLength key, fs => (fileLength fs.objects key.path, fs)
  | .openObject key, fs => (openFile fs.objects key.path, fs)
  | .makeMetadataParents key, fs =>
    fs.withMetadata (fun _ => .unavailable) (fs.metadata.makeDirs key.metadataPath.dropLast)
  | .persistMetadata key metadata, fs =>
    fs.withMetadata (fun _ => .conflict) (fs.metadata.create key.metadataPath metadata)
  | .removeMetadata key, fs => fs.withMetadata mapIo (fs.metadata.remove key.metadataPath)
  | .readMetadata key, fs => (openFile fs.metadata key.metadataPath, fs)
  | .createUpload id, fs =>
    match fs.multipart.insert? { id, files := .empty } with
    | some multipart => (.ok (), { fs with multipart })
    | none => (.error .conflict, fs)
  | .writeKey id key, fs =>
    if (fs.multipart.find? id).isSome then (.ok (), fs.withUpload id fun u => u.write (.key key))
    else (.error .unavailable, fs)
  | .persistPart id number content, fs =>
    -- the parent directory is created again when it is gone
    let fs :=
      match fs.multipart.insert? { id, files := .empty } with
      | some multipart => { fs with multipart }
      | none => fs
    (.ok (), fs.withUpload id fun u => u.write (.part number content))
  | .isUpload id, fs => (ensure ((fs.multipart.find? id).isSome = true) .notFound, fs)
  | .readKey id, fs =>
    (match fs.stagedFile id .key with
      | some (.key key) => .ok key
      | _ => .error .notFound, fs)
  | .openPart id number, fs =>
    (match fs.stagedFile id (.part number) with
      | some (.part _ content) => .ok content
      | _ => .error .notFound, fs)
  | .readUpload id, fs =>
    (match fs.multipart.find? id with
      | some upload => .ok (upload.files.rows.map StagedFile.name)
      | none => .error .unavailable, fs)
  | .removeFile id name, fs =>
    (.ok (), fs.withUpload id fun u => { u with files := u.files.erase fun f => f.name = name })
  | .removeUpload id, fs =>
    match fs.multipart.find? id with
    | some upload =>
      if upload.files.rows = [] then
        (.ok (), { fs with multipart := fs.multipart.erase fun u => u.id = id })
      else (.error .unavailable, fs)
    | none => (.error .unavailable, fs)

/-- The filesystem as a machine of system calls. -/
def machine : Machine FileCommand FileCommand.Response Filesystem := 
  ⟨perform, fun c => .error c.failure⟩

theorem machine_perform (c : FileCommand) (fs : Filesystem) :
    machine.perform c fs = perform c fs := rfl

theorem machine_failed (c : FileCommand) : machine.failed c = .error c.failure := rfl

end Filesystem

/-! ### The provider -/

/-- A program of system calls that ends with an answer of the storage contract. -/
abbrev FileAction (α : Type) := Procedure FileCommand FileCommand.Response StorageError α

namespace FilesystemStorage

variable [Digest]

/-- A system call whose error is the provider's. -/
def sys (c : FileCommand) : FileAction c.Value := ⟨.call c⟩

/-- `write_stream` to an object that must not exist yet. -/
def writeStream (key : StorageKey) (source : Bytes) (expected : Option ObjectChecksum) :
    FileAction StorageMetadata := do
  sys (.makeObjectParents key)
  let metadata ← .lift (hashed source)
  .lift (ensure (∀ checksum ∈ expected, checksum = metadata.checksum) .integrityMismatch)
  sys (.persistObject key source)
  pure metadata

def writeMetadata (key : StorageKey) (metadata : StorageMetadata) : FileAction Unit := do
  sys (.makeMetadataParents key)
  sys (.persistMetadata key metadata)

/-- The metadata of a persisted object written; the object is taken back on an error. -/
def describe (key : StorageKey) (metadata : StorageMetadata) : FileAction StorageMetadata := do
  (writeMetadata key metadata).recover fun error => do
    .ignore (.call (.removeObject key))
    .fail error
  pure metadata

def put (key : StorageKey) (source : Bytes) (expected : Option ObjectChecksum) :
    FileAction StorageMetadata := do
  let metadata ← writeStream key source expected
  describe key metadata

def head (key : StorageKey) : FileAction StorageMetadata := do
  let metadata ← sys (.readMetadata key)
  let actual ← sys (.objectLength key)
  .lift (ensure (actual = some metadata.size) .integrityMismatch)
  pure metadata

/-- `get` of the whole object. -/
def get (key : StorageKey) : FileAction (StorageMetadata × Bytes) := do
  let metadata ← head key
  let content ← sys (.openObject key)
  pure (metadata, content.take metadata.size)

/-- `get` with a range: the metadata, the range that is read and its bytes. -/
def getRange (key : StorageKey) (range : Option ByteRange) :
    FileAction (StorageMetadata × ByteRange × Bytes) := do
  let metadata ← head key
  let range := range.getD ⟨0, metadata.size⟩
  .lift (ensure (range.start ≤ range.stop) .invalidInput)
  .lift (ensure (range.stop ≤ metadata.size) .invalidInput)
  let content ← sys (.openObject key)
  pure (metadata, range, range.slice content)

def delete (key : StorageKey) : FileAction Unit := do
  sys (.removeObject key)
  sys (.removeMetadata key)

/-! ### Staged uploads -/

/-- The names a staging directory may have. -/
def ValidUploadId (id : String) : Prop :=
  id ≠ "" ∧ id.utf8ByteSize ≤ 64 ∧ ∀ c ∈ id.toList, isAsciiAlphanumeric c = true ∨ c = '-'

instance (id : String) : Decidable (ValidUploadId id) :=
  inferInstanceAs (Decidable (_ ∧ _ ∧ _))

def startMultipart (id : String) (key : StorageKey) : FileAction String := do
  sys (.createUpload id)
  sys (.writeKey id key)
  pure id

def existingUpload (id : String) : FileAction Unit := do
  .lift (ensure (ValidUploadId id) .invalidInput)
  sys (.isUpload id)

def storePart (upload : String) (number : ℕ) (source : Bytes) : FileAction MultipartPart := do
  .lift (ensure (number ≠ 0 ∧ number ≤ 10000) .invalidInput)
  existingUpload upload
  let metadata ← .lift (hashed source)
  sys (.persistPart upload number source)
  pure { number, size := metadata.size, checksum := metadata.checksum, providerTag := none }

/-- The parts are numbered from one without gaps. -/
def validateParts (parts : List MultipartPart) : Except StorageError Unit :=
  ensure (parts ≠ [] ∧ parts.map MultipartPart.number = (List.range parts.length).map (· + 1))
    .invalidInput

/-- A staged part whose bytes are those the caller was told of. -/
def validatedReader (upload : String) (expected : MultipartPart) : FileAction Bytes := do
  let content ← sys (.openPart upload expected.number)
  let metadata ← .lift (hashed content)
  .lift (ensure (metadata.size = expected.size ∧ metadata.checksum = expected.checksum)
    .integrityMismatch)
  sys (.openPart upload expected.number)

def validatedReaders (upload : String) : List MultipartPart → FileAction (List Bytes)
  | [] => pure []
  | part :: parts => do
    let reader ← validatedReader upload part
    let readers ← validatedReaders upload parts
    pure (reader :: readers)

/-- The parts written as one object. -/
def putReaders (key : StorageKey) (readers : List Bytes) : FileAction StorageMetadata := do
  sys (.makeObjectParents key)
  let metadata ← .lift (hashed readers.flatten)
  sys (.persistObject key readers.flatten)
  describe key metadata

def removeFiles (id : String) : List StagedName → FileAction Unit
  | [] => pure ()
  | name :: names => do
    sys (.removeFile id name)
    removeFiles id names

/-- `remove_dir_all` of a staging directory, in the order the directory is read in. -/
def removeDirectory (id : String) : FileAction Unit := do
  let names ← sys (.readUpload id)
  removeFiles id names
  sys (.removeUpload id)

def finishMultipart (upload : String) (parts : List MultipartPart) :
    FileAction StorageMetadata := do
  .lift (validateParts parts)
  existingUpload upload
  let key ← sys (.readKey upload)
  let readers ← validatedReaders upload parts
  let metadata ← putReaders key readers
  removeDirectory upload
  pure metadata

def cancelMultipart (upload : String) : FileAction Unit := do
  existingUpload upload
  removeDirectory upload

/-- The program behind each command of the storage contract. -/
def provider : (c : StorageCommand) → FileAction c.Value
  | .put key source expected => put key source expected
  | .get key => get key
  | .head key => head key
  | .delete key => delete key
  | .beginMultipart id key => startMultipart id key
  | .putPart upload number source => storePart upload number source
  | .completeMultipart upload parts => finishMultipart upload parts
  | .abortMultipart upload => cancelMultipart upload

end FilesystemStorage
end BlobYard
