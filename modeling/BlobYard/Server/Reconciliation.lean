/-
Reconciliation of the metadata with the storage.

The server lists the version records and the stored keys, reads the bytes of every complete version
and files each discrepancy it meets in one of five lists.

* `reconcile` — the report;
* `observe` — the size and the checksum of the stored bytes;
* `observe_eq_ok` — an object is observed when the storage describes its bytes as they are;
* `expectedMetadata_cases` — what a record promises, or the finding that it promises nothing.
-/
import BlobYard.Contract.Storage
import BlobYard.Lib.SortedMap
import BlobYard.Server.Retention

namespace BlobYard

open Outcome

/-- Storage keys compare as texts. -/
instance : LinearOrder StorageKey :=
  LinearOrder.lift' StorageKey.asStr fun _ _ => StorageKey.ext

namespace Reconciliation

/-! ### The storage and the repository -/

/-- What one call of `read` gives. -/
inductive Chunk where
  | bytes (content : Bytes)
  | failure

/-- An object opened for reading: its metadata, and what its reader will give call by call. -/
structure StorageRead where
  metadata : StorageMetadata
  reader : List Chunk

/-- What reconciliation asks of a storage. -/
structure RuntimeStorage where
  listObjectKeys : Except StorageError (List StorageKey)
  get : StorageKey → Except StorageError StorageRead

/-- What reconciliation asks of a repository. -/
structure ReconciliationRepository where
  schemaVersion : Except RepositoryError ℕ
  listObjectVersions : Except RepositoryError (List ObjectVersionRecord)

/-! ### The report -/

structure ObservedObject where
  size : ℕ
  checksum : ObjectChecksum
  deriving DecidableEq

structure MetadataFinding where
  versionId : String
  storageKey : String
  state : String
  reason : String
  deriving DecidableEq

structure PhysicalFinding where
  storageKey : String
  deriving DecidableEq

structure IntegrityFinding where
  versionId : String
  storageKey : String
  expectedSize : ℕ
  expectedChecksum : String
  actualSize : Option ℕ
  actualChecksum : Option String
  reason : String
  deriving DecidableEq

structure ReconciliationCounts where
  metadataRecords : ℕ
  physicalObjects : ℕ
  findings : ℕ
  missingBytes : ℕ
  integrityDisagreements : ℕ
  missingMetadata : ℕ
  orphanedObjects : ℕ
  invalidMetadata : ℕ
  deriving DecidableEq

structure ReconciliationReport where
  reportSchemaVersion : ℕ
  coreVersion : String
  metadataSchemaVersion : ℕ
  clean : Bool
  counts : ReconciliationCounts
  missingBytes : List MetadataFinding
  integrityDisagreements : List IntegrityFinding
  missingMetadata : List PhysicalFinding
  orphanedObjects : List MetadataFinding
  invalidMetadata : List MetadataFinding
  deriving DecidableEq

def uploadStateText : UploadState → String
  | .pending => "pending"
  | .complete => "complete"
  | .aborted => "aborted"

def MetadataFinding.fromRecord (record : ObjectVersionRecord) (reason : String) :
    MetadataFinding where
  versionId := record.id
  storageKey := record.storageKey
  state := uploadStateText record.state
  reason := reason

def IntegrityFinding.new (record : ObjectVersionRecord) (expected : ObservedObject)
    (actual : Option ObservedObject) (reason : String) : IntegrityFinding where
  versionId := record.id
  storageKey := record.storageKey
  expectedSize := expected.size
  expectedChecksum := expected.checksum.asStr
  actualSize := actual.map ObservedObject.size
  actualChecksum := actual.map fun value => value.checksum.asStr
  reason := reason

namespace ReconciliationReport

def new (schema metadataRecords physicalObjects : ℕ) : ReconciliationReport where
  reportSchemaVersion := 1
  coreVersion := "0.1.16"
  metadataSchemaVersion := schema
  clean := false
  counts := ⟨metadataRecords, physicalObjects, 0, 0, 0, 0, 0, 0⟩
  missingBytes := []
  integrityDisagreements := []
  missingMetadata := []
  orphanedObjects := []
  invalidMetadata := []

def finish (report : ReconciliationReport) : ReconciliationReport :=
  let missingBytes := report.missingBytes.length
  let integrityDisagreements := report.integrityDisagreements.length
  let missingMetadata := report.missingMetadata.length
  let orphanedObjects := report.orphanedObjects.length
  let invalidMetadata := report.invalidMetadata.length
  let findings := missingBytes + integrityDisagreements + missingMetadata + orphanedObjects +
    invalidMetadata
  { report with
    counts := { report.counts with
      missingBytes, integrityDisagreements, missingMetadata, orphanedObjects, invalidMetadata,
      findings }
    clean := decide (findings = 0) }

def addMissingBytes (report : ReconciliationReport) (finding : MetadataFinding) :
    ReconciliationReport :=
  { report with missingBytes := report.missingBytes ++ [finding] }

def addIntegrityDisagreement (report : ReconciliationReport) (finding : IntegrityFinding) :
    ReconciliationReport :=
  { report with integrityDisagreements := report.integrityDisagreements ++ [finding] }

def addMissingMetadata (report : ReconciliationReport) (finding : PhysicalFinding) :
    ReconciliationReport :=
  { report with missingMetadata := report.missingMetadata ++ [finding] }

def addOrphanedObject (report : ReconciliationReport) (finding : MetadataFinding) :
    ReconciliationReport :=
  { report with orphanedObjects := report.orphanedObjects ++ [finding] }

def addInvalidMetadata (report : ReconciliationReport) (finding : MetadataFinding) :
    ReconciliationReport :=
  { report with invalidMetadata := report.invalidMetadata ++ [finding] }

end ReconciliationReport

/-! ### Reading an object -/

/-- `add_size`: the size is counted in 64 bits. -/
def addSize (current count : ℕ) : Except StorageError ℕ := do
  ensure (current + count ≤ u64Max) .integrityMismatch
  pure (current + count)

/-- `hash_reader_from`: the bytes that went into the digest, and their number.  Reading ends where
a call gives no bytes. -/
def hashReaderFrom (digest : Bytes) (size : ℕ) : List Chunk → Except StorageError (Bytes × ℕ)
  | [] => .ok (digest, size)
  | .failure :: _ => .error .unavailable
  | .bytes content :: rest =>
    if content.length = 0 then .ok (digest, size)
    else do
      let size ← addSize size content.length
      hashReaderFrom (digest ++ content) size rest

def hashReader (reader : List Chunk) : Except StorageError (Bytes × ℕ) :=
  hashReaderFrom [] 0 reader

def observe [Digest] (storage : RuntimeStorage) (key : StorageKey) :
    Except StorageError ObservedObject := do
  let read ← storage.get key
  let (digest, size) ← hashReader read.reader
  let actual : ObservedObject := { size, checksum := sha256 digest }
  if actual.size ≠ read.metadata.size ∨ actual.checksum ≠ read.metadata.checksum then
    .error .integrityMismatch
  else .ok actual

/-! ### The inspection -/

/-- `expected_metadata`: what the record promises, or a finding. -/
def expectedMetadata (record : ObjectVersionRecord) (report : ReconciliationReport) :
    Option ObservedObject × ReconciliationReport :=
  let missing := report.addInvalidMetadata (.fromRecord record "missing_integrity_metadata")
  match record.size with
  | none => (none, missing)
  | some size =>
    match record.checksum.bind fun value => (ObjectChecksum.new value).toOption with
    | some checksum => (some { size, checksum }, report)
    | none => (none, missing)

/-- `inspect_complete`. -/
def inspectComplete [Digest] (storage : RuntimeStorage) (key : StorageKey)
    (record : ObjectVersionRecord) (expected : ObservedObject) (report : ReconciliationReport) :
    Except ServerError ReconciliationReport :=
  match observe storage key with
  | .ok actual =>
    if actual = expected then .ok report
    else .ok (report.addIntegrityDisagreement
      (.new record expected (some actual) "content_mismatch"))
  | .error .notFound =>
    .ok (report.addMissingBytes (.fromRecord record "physical_object_absent"))
  | .error .integrityMismatch =>
    .ok (report.addIntegrityDisagreement
      (.new record expected none "storage_integrity_unreadable"))
  | .error _ => .error .storage

/-- One turn of the loop of `inspect_metadata`. -/
def inspectRecord [Digest] (storage : RuntimeStorage) (physical : List StorageKey)
    (report : ReconciliationReport) (entry : StorageKey × ObjectVersionRecord) :
    Except ServerError ReconciliationReport :=
  if entry.2.state ≠ .complete then
    .ok (if entry.1 ∈ physical then
      report.addOrphanedObject (.fromRecord entry.2 "non_complete_metadata") else report)
  else
    match expectedMetadata entry.2 report with
    | (none, report) => .ok report
    | (some expected, report) =>
      if entry.1 ∉ physical then
        .ok (report.addMissingBytes (.fromRecord entry.2 "physical_object_absent"))
      else inspectComplete storage entry.1 entry.2 expected report

/-- `inspect_metadata`. -/
def inspectMetadata [Digest] (storage : RuntimeStorage)
    (metadata : List (StorageKey × ObjectVersionRecord)) (physical : List StorageKey)
    (report : ReconciliationReport) : Except ServerError ReconciliationReport :=
  metadata.foldlM (inspectRecord storage physical) report

/-- `inspect_physical`. -/
def inspectPhysical (metadata : List (StorageKey × ObjectVersionRecord))
    (physical : List StorageKey) (report : ReconciliationReport) : ReconciliationReport :=
  physical.foldl (fun report key =>
    if key ∉ metadata.map Prod.fst then report.addMissingMetadata { storageKey := key.asStr }
    else report) report

/-- A record goes into the map of its key, or is filed when its key is no storage key. -/
def collectRecord (found : List (StorageKey × ObjectVersionRecord) × ReconciliationReport)
    (record : ObjectVersionRecord) :
    List (StorageKey × ObjectVersionRecord) × ReconciliationReport :=
  match StorageKey.new record.storageKey with
  | .ok key => (insertEntry key record found.1, found.2)
  | .error _ =>
    (found.1, found.2.addInvalidMetadata (.fromRecord record "unsafe_storage_key"))

/-- The set of the keys, in their order. -/
def keySet (keys : List StorageKey) : List StorageKey :=
  (fromEntries (keys.map fun key => (key, ()))).map Prod.fst

def reconcile [Digest] (repository : ReconciliationRepository) (storage : RuntimeStorage) :
    Except ServerError ReconciliationReport := do
  let records ← repository.listObjectVersions.mapError .repository
  let physicalKeys ← storage.listObjectKeys.mapError fun _ => .storage
  let schema ← repository.schemaVersion.mapError .repository
  let report := ReconciliationReport.new schema records.length physicalKeys.length
  let (metadata, report) := records.foldl collectRecord ([], report)
  let physical := keySet physicalKeys
  let report ← inspectMetadata storage metadata physical report
  pure (inspectPhysical metadata physical report).finish

/-! ### What is read -/

/-- The bytes that a reader gives, unless it fails. -/
def contents : List Chunk → Option Bytes
  | [] => some []
  | .failure :: _ => none
  | .bytes content :: rest =>
    if content.length = 0 then some [] else (contents rest).map (content ++ ·)

theorem hashReaderFrom_eq_ok {reader : List Chunk} {digest digest' : Bytes} {size size' : ℕ}
    (hsize : size ≤ u64Max) :
    hashReaderFrom digest size reader = .ok (digest', size') ↔
      ∃ content, contents reader = some content ∧ digest' = digest ++ content ∧
        size' = size + content.length ∧ size' ≤ u64Max := by
  induction reader generalizing digest size with
  | nil =>
    simp only [hashReaderFrom, contents, Except.ok.injEq, Prod.mk.injEq, Option.some.injEq]
    constructor
    · rintro ⟨rfl, rfl⟩
      exact ⟨[], rfl, (List.append_nil _).symm, rfl, hsize⟩
    · rintro ⟨_, rfl, rfl, rfl, -⟩
      exact ⟨(List.append_nil _).symm, rfl⟩
  | cons chunk rest ih =>
    cases chunk with
    | failure => simp [hashReaderFrom, contents]
    | bytes content =>
      by_cases hempty : content.length = 0
      · simp only [hashReaderFrom, contents, if_pos hempty, Except.ok.injEq, Prod.mk.injEq,
          Option.some.injEq]
        constructor
        · rintro ⟨rfl, rfl⟩
          exact ⟨[], rfl, (List.append_nil _).symm, rfl, hsize⟩
        · rintro ⟨_, rfl, rfl, rfl, -⟩
          exact ⟨(List.append_nil _).symm, rfl⟩
      · simp only [hashReaderFrom, contents, if_neg hempty, addSize, bind_eq_ok, ensure_eq_ok,
          pure_eq_ok, exists_const, Option.map_eq_some_iff]
        constructor
        · rintro ⟨_, ⟨hfits, rfl⟩, hrest⟩
          obtain ⟨behind, hbehind, rfl, rfl, hmost⟩ := (ih hfits).mp hrest
          refine ⟨content ++ behind, ⟨behind, hbehind, rfl⟩, List.append_assoc _ _ _, ?_, hmost⟩
          rw [List.length_append, Nat.add_assoc]
        · rintro ⟨_, ⟨behind, hbehind, rfl⟩, rfl, rfl, hmost⟩
          have hlength : size + (content ++ behind).length =
              size + content.length + behind.length := by
            rw [List.length_append, Nat.add_assoc]
          have hfits : size + content.length ≤ u64Max := by omega
          exact ⟨_, ⟨hfits, rfl⟩, (ih hfits).mpr
            ⟨behind, hbehind, (List.append_assoc _ _ _).symm, hlength, hmost⟩⟩

/-- The storage gives these bytes for the key, and describes them by this metadata. -/
def Gives (storage : RuntimeStorage) (key : StorageKey) (content : Bytes)
    (metadata : StorageMetadata) : Prop :=
  ∃ read, storage.get key = .ok read ∧ contents read.reader = some content ∧
    read.metadata = metadata

/-- An object is observed when the storage gives its bytes and describes them as they are. -/
theorem observe_eq_ok [Digest] {storage : RuntimeStorage} {key : StorageKey}
    {actual : ObservedObject} :
    observe storage key = .ok actual ↔
      ∃ content, Gives storage key content ⟨content.length, sha256 content⟩ ∧
        content.length ≤ u64Max ∧ actual = ⟨content.length, sha256 content⟩ := by
  simp only [observe, hashReader, bind_eq_ok, Prod.exists, hashReaderFrom_eq_ok (Nat.zero_le _),
    Nat.zero_add, List.nil_append]
  constructor
  · rintro ⟨read, hget, digest, size, ⟨content, hcontent, rfl, rfl, hmost⟩, hactual⟩
    split at hactual
    case isTrue => cases hactual
    case isFalse hagree =>
      rw [not_or, not_not, not_not] at hagree
      refine ⟨digest, ⟨read, hget, hcontent, ?_⟩, hmost, (Except.ok.inj hactual).symm⟩
      rw [StorageMetadata.mk.injEq]
      exact ⟨hagree.1.symm, hagree.2.symm⟩
  · rintro ⟨content, ⟨read, hget, hcontent, hmetadata⟩, hmost, rfl⟩
    refine ⟨read, hget, content, content.length, ⟨content, hcontent, rfl, rfl, hmost⟩, ?_⟩
    rw [hmetadata, if_neg]
    simp

/-! ### What is filed -/

/-- The size and the checksum that a record promises. -/
def Promises (record : ObjectVersionRecord) (expected : ObservedObject) : Prop :=
  record.size = some expected.size ∧ record.checksum = some expected.checksum.asStr

theorem expectedMetadata_cases (record : ObjectVersionRecord) (report : ReconciliationReport) :
    (∃ expected, Promises record expected ∧
        expectedMetadata record report = (some expected, report)) ∨
      (∀ expected, ¬Promises record expected) ∧
        expectedMetadata record report = (none, report.addInvalidMetadata
          (.fromRecord record "missing_integrity_metadata")) := by
  rw [expectedMetadata]
  cases hsize : record.size with
  | none =>
    refine Or.inr ⟨fun expected hpromise => ?_, rfl⟩
    rw [Promises, hsize] at hpromise
    exact absurd hpromise.1 nofun
  | some size =>
    cases hchecksum : record.checksum.bind fun value => (ObjectChecksum.new value).toOption with
    | none =>
      refine Or.inr ⟨fun expected hpromise => ?_, rfl⟩
      rw [hpromise.2, Option.bind_some, ObjectChecksum.new, dif_pos expected.checksum.valid]
        at hchecksum
      exact absurd hchecksum nofun
    | some checksum =>
      obtain ⟨value, hvalue, hnew⟩ := Option.bind_eq_some_iff.mp hchecksum
      refine Or.inl ⟨⟨size, checksum⟩, ⟨hsize, ?_⟩, rfl⟩
      rw [hvalue]
      rw [ObjectChecksum.new] at hnew
      split at hnew
      · rw [← Option.some.inj hnew]
      · exact absurd hnew nofun

end Reconciliation

end BlobYard
