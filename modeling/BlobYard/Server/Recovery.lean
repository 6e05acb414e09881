/-
Backup and restore.

A backup copies the metadata database, the runtime secret and the objects of all complete versions
into a new directory and describes them in a manifest.  A restore checks such a directory, imports
its objects into an empty object storage and puts a new installation in place; what it imported is
deleted again when it fails.

* `openSecureFile`, `copyVerified`, `createStage`, `persistStageWithCleanup` — the parts they share;
* `Backup.create` — a backup; `Restore.apply` — a restore;
* `inspectDatabase` — the check of a metadata file.
-/
import BlobYard.Server.Installations
import BlobYard.Server.RecoveryManifest
import BlobYard.Server.YardContracts

namespace BlobYard

open Outcome

/-- `current_schema_version`. -/
def currentSchemaVersion : ℕ := 24

/-- What SQLite does with a file of metadata: the answers to its checks, the copy that an online
backup makes of it, the file as the repository leaves it after opening it, and the versions the
repository lists.  A file of the current schema keeps it when it is opened; an empty file has
none. -/
class MetadataDatabase where
  integrityCheck : Bytes → Option String
  userVersion : Bytes → Option ℕ
  backup : Bytes → Option Bytes
  opened : Bytes → Except RepositoryError Bytes
  listObjectVersions : Bytes → Except RepositoryError (List ObjectVersionRecord)
  opened_checks {file file' : Bytes} : userVersion file = some currentSchemaVersion →
    opened file = .ok file' →
      integrityCheck file' = integrityCheck file ∧ userVersion file' = userVersion file
  userVersion_nil {version : ℕ} : userVersion [] = some version → version = 0

/-- `oldest_supported_schema_version`. -/
def oldestSupportedSchemaVersion : ℕ := 1

/-- `inspect_connection`: the schema version of a file that is not corrupt. -/
def inspectDatabase [MetadataDatabase] (file : Bytes) : Except RepositoryError ℕ := do
  let integrity ← ofOption .unavailable (MetadataDatabase.integrityCheck file)
  ensure (integrity = "ok") .unavailable
  ofOption .unavailable (MetadataDatabase.userVersion file)

/-- `map_repository`. -/
def mapRepository : RepositoryError → RecoveryError
  | .schemaTooNew => .schemaTooNew
  | _ => .database

/-- `map_storage`. -/
def mapStorage : StorageError → RecoveryError
  | .integrityMismatch => .integrity
  | _ => .storage

/-- A recovery command. -/
abbrev Recovery (α : Type) := Procedure WorkbenchCommand WorkbenchCommand.Response RecoveryError α

namespace Recovery

/-! ### Files and directories -/

def metadataPath : StoragePath := ["metadata.sqlite3".toList]

def secretPath : StoragePath := ["runtime.secret".toList]

def manifestPath : StoragePath := ["manifest.json".toList]

/-- Where a backup has the object of a key. -/
def objectPath (key : StorageKey) : StoragePath := "objects".toList :: key.path

/-- A call on directories, with the error it is reported as. -/
def directory (c : DirectoryCommand) (error : RecoveryError) : Recovery c.Value :=
  .attempt (fun _ => error) (Workbench.onDirectory c)

/-- A call on the object storage, with the errors it is reported as. -/
def object (c : ObjectCommand) (rename : StorageError → RecoveryError) : Recovery c.Value :=
  .attempt rename (Workbench.onObject c)

/-- `validate_directory`. -/
def validateDirectory : Recovery Unit := directory .checkSource .installationUnavailable

/-- `open_secure_file`: the bytes of a file that no symbolic link leads to. -/
def openSecureFile (path : StoragePath) : Recovery Bytes :=
  directory (.openSource path) .invalidBackup

/-- `read_secure_file`. -/
def readSecureFile (path : StoragePath) : Recovery Bytes := do
  let file ← openSecureFile path
  directory (.read file) .invalidBackup

/-- `write_private_file`. -/
def writePrivateFile (path : StoragePath) (content : Bytes) : Recovery Unit := do
  directory (.createFile path) .persistence
  directory .setPermissions .persistence
  directory (.writeFile path content) .persistence

variable [Digest]

/-- The size and the checksum of what was read; the size is counted in 64 bits. -/
def streamHash (content : Bytes) : Except RecoveryError (ℕ × String) := do
  ensure (content.length ≤ u64Max) .integrity
  pure (content.length, (sha256 content).asStr)

/-- `hash_reader`. -/
def hashReader (file : Bytes) : Recovery (ℕ × String) := do
  let content ← directory (.read file) .storage
  .lift (streamHash content)

/-- `copy_verified`. -/
def copyVerified (file : Bytes) (target : StoragePath) : Recovery (ℕ × String) := do
  directory (.createFile target) .persistence
  directory .setPermissions .persistence
  let content ← directory (.read file) .storage
  directory (.writeFile target content) .persistence
  .lift (streamHash content)

/-- `hash_file`, of a file of the directory that is built. -/
def hashFile (path : StoragePath) : Recovery String := do
  let file ← directory (.openStaged path) .invalidBackup
  let hash ← hashReader file
  pure hash.2

omit [Digest] in
/-- The directory that is built is removed after an error. -/
def dropOnError {α : Type} (x : Recovery α) : Recovery α :=
  x.recover fun error => do
    .ignore (Workbench.onDirectory .removeStage)
    .fail error

omit [Digest] in
/-- `create_stage`; a destination that cannot be looked at does not exist. -/
def createStage : Recovery Unit := do
  let found ← (directory .destinationExists .persistence).recover fun _ => pure false
  .lift (ensure (found = false) .destinationExists)
  directory .createParent .persistence
  directory .createStage .persistence
  dropOnError (directory .setPermissions .persistence)

omit [Digest] in
/-- `persist_stage_with_cleanup`: the error is that of the cleanup, if it has one. -/
def persistStageWithCleanup (cleanup : Recovery Unit) : Recovery Unit :=
  (directory .renameStage .persistence).recover fun error =>
    ⟨cleanup.program.bind fun cleaned =>
      (Workbench.onDirectory .removeStage).bind fun _ =>
        .done (cleaned.bind fun _ => .error error)⟩

omit [Digest] in
/-- A runtime secret is a valid one. -/
def validSecret (error : RecoveryError) (bytes : Bytes) : Except RecoveryError Unit := do
  let value ← ofOption error (utf8Text? bytes)
  let _ ← (SecretString.new (String.ofList value)).mapError fun _ => error
  pure ()

end Recovery

/-! ### Backup -/

namespace Backup

open Recovery

variable [MetadataDatabase]

/-- `snapshot_database`. -/
def snapshotDatabase : Recovery ℕ := do
  let file ← directory (.openSource metadataPath) .database
  let inspection ← .lift ((inspectDatabase file).mapError mapRepository)
  .lift (ensure (inspection ≤ currentSchemaVersion) .schemaTooNew)
  let copy ← .lift (ofOption .database (MetadataDatabase.backup file))
  directory (.createFile metadataPath) .database
  directory (.writeFile metadataPath copy) .database
  let copied ← directory (.openStaged metadataPath) .database
  let inspected ← .lift ((inspectDatabase copied).mapError mapRepository)
  .lift (ensure (inspected = inspection) .database)
  pure inspection

/-- `read_runtime_secret`. -/
def readRuntimeSecret : Recovery Bytes := do
  let bytes ← (readSecureFile secretPath).recover fun _ => .fail .installationUnavailable
  .lift (validSecret .installationUnavailable bytes)
  pure bytes

/-- `stage_control_files`. -/
def stageControlFiles : Recovery ℕ := do
  let inspection ← snapshotDatabase
  directory .setPermissions .persistence
  .lift (ensure (inspection = currentSchemaVersion) .schemaTooOld)
  let secret ← readRuntimeSecret
  writePrivateFile secretPath secret
  pure inspection

/-- `inventory_records`: the repository is opened on the copy, which may change its bytes. -/
def inventoryRecords : Recovery (List ObjectVersionRecord) := do
  let file ← directory (.openStaged metadataPath) .database
  let file ← .lift ((MetadataDatabase.opened file).mapError mapRepository)
  directory (.writeFile metadataPath file) .database
  let records ← .lift ((MetadataDatabase.listObjectVersions file).mapError mapRepository)
  .lift (ensure (∀ record ∈ records, record.state ≠ .pending) .activeUploads)
  pure records

variable [Digest]

omit [MetadataDatabase] in
/-- `copy_object`. -/
def copyObject (record : ObjectVersionRecord) : Recovery BackupObject := do
  let key ← .lift ((StorageKey.new record.storageKey).mapError fun _ => .integrity)
  let size ← .lift (ofOption .integrity record.size)
  let value ← .lift (ofOption .integrity record.checksum)
  let checksum ← .lift ((ObjectChecksum.new value).mapError fun _ => .integrity)
  let read ← object (.get key) mapStorage
  .lift (ensure (read.1.size = size ∧ read.1.checksum = checksum) .integrity)
  let actual ← copyVerified read.2 (objectPath key)
  .lift (ensure (actual.1 = size ∧ actual.2 = checksum.asStr) .integrity)
  pure { storageKey := record.storageKey, size, checksum := checksum.asStr }

omit [MetadataDatabase] in
/-- The loop over the complete versions, with the objects copied so far and their bytes. -/
def copyObjects (objects : List BackupObject) (bytes : ℕ) :
    List ObjectVersionRecord → Recovery (List BackupObject × ℕ)
  | [] => pure (objects, bytes)
  | record :: records => do
    let object ← copyObject record
    let bytes ← .lift (ofOption .integrity (checkedAdd bytes object.size))
    copyObjects (objects ++ [object]) bytes records

omit [MetadataDatabase] in
/-- `stage_objects`. -/
def stageObjects (records : List ObjectVersionRecord) : Recovery (List BackupObject × ℕ) := do
  directory .openStorage .storage
  copyObjects [] 0 (records.filter fun record => record.state = .complete)

variable [ManifestEncoder]

omit [MetadataDatabase] in
/-- `write_manifest`. -/
def writeManifest (inspection : ℕ) (objects : List BackupObject) : Recovery BackupManifest := do
  let metadata ← hashFile metadataPath
  let secret ← hashFile secretPath
  let manifest := BackupManifest.new inspection metadata secret objects
  writePrivateFile manifestPath manifest.encode
  pure manifest

/-- What a backup reports. -/
structure Report where
  metadataSchemaVersion : ℕ
  objects : ℕ
  bytes : ℕ
  deriving DecidableEq

/-- `create`. -/
def create : Recovery Report := do
  validateDirectory
  createStage
  let staged ← dropOnError do
    let inspection ← stageControlFiles
    let records ← inventoryRecords
    let staged ← stageObjects records
    let manifest ← writeManifest inspection staged.1
    pure (inspection, manifest, staged.2)
  persistStageWithCleanup (pure ())
  pure { metadataSchemaVersion := staged.1, objects := staged.2.1.objects.length,
         bytes := staged.2.2 }

end Backup

/-! ### Restore -/

namespace Restore

open Recovery

/-- `BackupManifest::read`. -/
def readManifest [ManifestEncoder] : Recovery BackupManifest := do
  let bytes ← readSecureFile manifestPath
  .lift (BackupManifest.decode bytes)

/-- `verify_hash`. -/
def verifyHash [Digest] (path : StoragePath) (expected : String) : Recovery Unit := do
  let source ← openSecureFile path
  let hash ← hashReader source
  .lift (ensure (hash.2 = expected) .integrity)

/-- `validate_backup`. -/
def validateBackup [Digest] [MetadataDatabase] [ManifestEncoder] : Recovery BackupManifest := do
  let manifest ← readManifest
  .lift (ensure (oldestSupportedSchemaVersion ≤ manifest.metadataSchemaVersion) .schemaTooOld)
  .lift (ensure (manifest.metadataSchemaVersion ≤ currentSchemaVersion) .schemaTooNew)
  verifyHash metadataPath manifest.metadataSha256
  verifyHash secretPath manifest.runtimeSecretSha256
  let _ ← openSecureFile metadataPath
  let file ← directory (.openSource metadataPath) .database
  let inspection ← .lift ((inspectDatabase file).mapError fun _ => .database)
  .lift (ensure (inspection = manifest.metadataSchemaVersion) .invalidBackup)
  let runtime ← readSecureFile secretPath
  .lift (validSecret .invalidBackup runtime)
  pure manifest

/-- `total_bytes`. -/
def totalBytes (manifest : BackupManifest) : Except RecoveryError ℕ :=
  manifest.objects.foldlM (fun total object => ofOption .integrity (checkedAdd total object.size)) 0

/-- One control file copied. -/
def copyControlFile [Digest] (path : StoragePath) (checksum : String) : Recovery Unit := do
  let source ← openSecureFile path
  let copied ← copyVerified source path
  .lift (ensure (copied.1 ≠ 0 ∧ copied.2 = checksum) .integrity)

/-- `copy_control_files`. -/
def copyControlFiles [Digest] (manifest : BackupManifest) : Recovery Unit := do
  copyControlFile metadataPath manifest.metadataSha256
  copyControlFile secretPath manifest.runtimeSecretSha256

/-- `require_empty_storage`. -/
def requireEmptyStorage : Recovery Unit := do
  let keys ← object .listObjectKeys fun _ => .storage
  .lift (ensure (keys = []) .storageNotEmpty)

/-- One object put into the storage, with what the storage says about it. -/
def importObject [Digest] (backup : BackupObject) :
    Recovery (StorageKey × ObjectChecksum × StorageMetadata) := do
  let key ← .lift ((StorageKey.new backup.storageKey).mapError fun _ => .invalidBackup)
  let expected ← .lift ((ObjectChecksum.new backup.checksum).mapError fun _ => .invalidBackup)
  let validation ← openSecureFile (objectPath key)
  let hash ← hashReader validation
  .lift (ensure (hash.1 = backup.size ∧ hash.2 = backup.checksum) .integrity)
  let source ← openSecureFile (objectPath key)
  let metadata ← object (.put key source (some expected)) fun _ => .storage
  pure (key, expected, metadata)

/-- The comparison of the inventory with what was imported. -/
def compareInventory (imported : List StorageKey) : Recovery Unit := do
  let physical ← object .listObjectKeys fun _ => .storage
  .lift (ensure (physical = imported) .integrity)

/-- `restore_objects`: the outcome, and the keys that were imported in any case. -/
def restoreObjects [Digest] (imported : List StorageKey) : List BackupObject →
    WorkbenchProgram (Except RecoveryError Unit × List StorageKey)
  | [] => (compareInventory imported).program.bind fun r => .done (r, imported)
  | backup :: rest => (importObject backup).program.bind fun r =>
    match r with
    | .error error => .done (.error error, imported)
    | .ok (key, expected, metadata) =>
      if metadata.size ≠ backup.size ∨ metadata.checksum ≠ expected then
        .done (.error .integrity, imported ++ [key])
      else restoreObjects (imported ++ [key]) rest

/-- The deletions, with whether one of them failed. -/
def deleteAll : List StorageKey → WorkbenchProgram Bool
  | [] => .done false
  | key :: keys => (Workbench.onObject (.delete key)).bind fun r =>
    (deleteAll keys).bind fun failed => .done (!r.isOk || failed)

/-- `cleanup`: what was imported is deleted, last in first out. -/
def cleanup (imported : List StorageKey) : Recovery Unit :=
  ⟨(deleteAll imported.reverse).bind fun failed =>
    .done (if failed then .error .storage else .ok ())⟩

/-- `cleanup_after`. -/
def cleanupAfter (imported : List StorageKey) (error : RecoveryError) : Recovery Unit := do
  cleanup imported
  .fail error

/-- `persist_restored_stage`. -/
def persistRestoredStage (restored : Except RecoveryError Unit × List StorageKey) :
    Recovery Unit :=
  match restored.1 with
  | .error error => dropOnError (cleanupAfter restored.2 error)
  | .ok _ => persistStageWithCleanup (cleanup restored.2)

/-- What a restore reports. -/
structure Report where
  metadataSchemaVersion : ℕ
  objects : ℕ
  bytes : ℕ
  deriving DecidableEq

/-- `apply`. -/
def apply [Digest] [MetadataDatabase] [ManifestEncoder] : Recovery Report := do
  let manifest ← validateBackup
  let bytes ← .lift (totalBytes manifest)
  createStage
  dropOnError do
    copyControlFiles manifest
    directory .openStorage .storage
    requireEmptyStorage
  let restored ← (⟨(restoreObjects [] manifest.objects).bind fun r => .done (.ok r)⟩ :
    Recovery (Except RecoveryError Unit × List StorageKey))
  persistRestoredStage restored
  pure { metadataSchemaVersion := manifest.metadataSchemaVersion,
         objects := manifest.objects.length, bytes }

end Restore
end BlobYard
